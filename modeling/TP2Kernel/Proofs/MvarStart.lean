import TP2Kernel.MvarStart

/-!
# Failures of the start

Before the loops `mvar_start` undoes what it has done. In the loops it returns with the context in
use, whichever allocation or process is the first to fail.
-/

namespace TP2Kernel.Proofs
open Function MvarSystem

variable {e : MvarAnswers} {σ σ' : MvarSystem} {entry : MvarEntryPoint} {s0 s1 s2 name : CStr}
  {info : Option MvarLaunchInfo} {n m i : Nat}

/-- The requests of the next `n` iterations are all answered. -/
def Answered (e : MvarAnswers) (σ : MvarSystem) (n : Nat) : Prop :=
  (∀ j < 4 * n, σ.heap.fails (σ.heap.next + j) = false) ∧
    ∀ j < n, 0 ≤ e.createProcess (σ.requests + j)

/-- `n` iterations have made their requests. -/
structure Advanced (σ σ' : MvarSystem) (n : Nat) : Prop where
  contexts : σ'.contexts = σ.contexts
  fails : σ'.heap.fails = σ.heap.fails
  next : σ'.heap.next = σ.heap.next + 4 * n
  requests : σ'.requests = σ.requests + n

/-- The first `n` iterations, and then `m` more. -/
lemma answered_add (h : Advanced σ σ' n) :
    Answered e σ (n + m) ↔ Answered e σ n ∧ Answered e σ' m := by
  rw [Answered, Answered, Answered, h.fails, h.next, h.requests]
  constructor
  · rintro ⟨ha, hc⟩
    refine ⟨⟨fun j hj => ha j (by omega), fun j hj => hc j (by omega)⟩, ?_, ?_⟩
    · intro j hj
      rw [Nat.add_assoc]
      exact ha _ (by omega)
    · intro j hj
      rw [Nat.add_assoc]
      exact hc _ (by omega)
  · rintro ⟨⟨ha, hc⟩, ha', hc'⟩
    constructor
    · intro j hj
      by_cases hlt : j < 4 * n
      · exact ha j hlt
      · have h' := ha' (j - 4 * n) (by omega)
        rwa [Nat.add_assoc, Nat.add_sub_cancel' (by omega)] at h'
    · intro j hj
      by_cases hlt : j < n
      · exact hc j hlt
      · have h' := hc' (j - n) (by omega)
        rwa [Nat.add_assoc, Nat.add_sub_cancel' (by omega)] at h'

lemma answered_one :
    Answered e σ 1 ↔ σ.heap.fails σ.heap.next = false ∧ σ.heap.fails (σ.heap.next + 1) = false ∧
      σ.heap.fails (σ.heap.next + 2) = false ∧ σ.heap.fails (σ.heap.next + 3) = false ∧
      0 ≤ e.createProcess σ.requests := by
  constructor
  · rintro ⟨ha, hc⟩
    exact ⟨ha 0 (by omega), ha 1 (by omega), ha 2 (by omega), ha 3 (by omega), hc 0 (by omega)⟩
  · rintro ⟨h0, h1, h2, h3, hc⟩
    constructor
    · intro j hj
      interval_cases j
      · exact h0
      · exact h1
      · exact h2
      · exact h3
    · intro j hj
      interval_cases j
      exact hc

/-- What one iteration does. -/
structure Iterates (e : MvarAnswers) (σ : MvarSystem) (r : MvarSystem × Option Int) : Prop where
  contexts : r.1.contexts = σ.contexts
  some_iff : r.2.isSome = true ↔ Answered e σ 1
  advanced : r.2.isSome = true → Advanced σ r.1 1

/-- Where an iteration fails, the contexts are as they were. -/
lemma iterates_none (hc : σ'.contexts = σ.contexts) (h : ¬Answered e σ 1) :
    Iterates e σ (σ', none) :=
  ⟨hc, iff_of_false Bool.false_ne_true h, fun h' => absurd h' Bool.false_ne_true⟩

lemma spawn_iterates (e : MvarAnswers) (σ : MvarSystem) (entry : MvarEntryPoint)
    (s0 s1 s2 : CStr) : Iterates e σ (spawn e σ entry s0 s1 s2) := by
  have hall := answered_one (e := e) (σ := σ)
  cases h0 : σ.heap.fails σ.heap.next with
  | true =>
    simp only [spawn, UserHeap.sysMalloc, h0, if_true]
    exact iterates_none rfl (by simp [hall, h0])
  | false =>
    simp only [spawn, UserHeap.sysMalloc, h0, Bool.false_eq_true, if_false, Nat.add_assoc,
      Nat.reduceAdd]
    split
    · rename_i a0 a1 a2 h1 h2 h3
      simp only [Option.ite_none_left_eq_some, Bool.not_eq_true] at h1 h2 h3
      split
      · rename_i hneg
        refine iterates_none ?_ fun h => absurd (hall.mp h).2.2.2.2 (by simpa using hneg)
        rfl
      · rename_i hpos
        have hans : Answered e σ 1 :=
          hall.mpr ⟨h0, h1.1, h2.1, h3.1, by simpa using hpos⟩
        exact ⟨rfl, iff_of_true rfl hans, fun _ => ⟨rfl, rfl, rfl, rfl⟩⟩
    · rename_i hno
      refine iterates_none ?_ ?_
      · rfl
      · intro h
        obtain ⟨-, h1, h2, h3, -⟩ := hall.mp h
        exact hno _ _ _ (by rw [h1]; rfl) (by rw [h2]; rfl) (by rw [h3]; rfl)

/-- A loop goes through exactly when all its requests are answered. -/
lemma spawnLoop_spec {one : MvarSystem → Nat → MvarSystem × Option Int}
    (store : Nat → Int → MvarLaunchInfo → MvarLaunchInfo)
    (hone : ∀ σ i, Iterates e σ (one σ i)) (n i : Nat) (σ : MvarSystem)
    (info : Option MvarLaunchInfo) :
    (spawnLoop one store n i σ info).1.contexts = σ.contexts ∧
      ((spawnLoop one store n i σ info).2.2 = true ↔ Answered e σ n) ∧
      ((spawnLoop one store n i σ info).2.2 = true →
        Advanced σ (spawnLoop one store n i σ info).1 n) := by
  induction n generalizing i σ info with
  | zero =>
    have hnone : Answered e σ 0 :=
      ⟨fun j hj => absurd hj (by omega), fun j hj => absurd hj (by omega)⟩
    exact ⟨rfl, iff_of_true rfl hnone, fun _ => ⟨rfl, rfl, rfl, rfl⟩⟩
  | succ n ih =>
    have hfirst := hone σ i
    rw [spawnLoop]
    generalize one σ i = r at hfirst ⊢
    obtain ⟨σ1, pid⟩ := r
    obtain ⟨hc, hiff, hadv⟩ := hfirst
    cases pid with
    | none =>
      have hno : ¬Answered e σ 1 := fun h => absurd (hiff.mpr h) Bool.false_ne_true
      refine ⟨hc, iff_of_false Bool.false_ne_true ?_, fun h => absurd h Bool.false_ne_true⟩
      rintro ⟨ha, hp⟩
      exact hno ⟨fun j hj => ha j (by omega), fun j hj => hp j (by omega)⟩
    | some pid =>
      have h1 := hadv rfl
      obtain ⟨hc', hiff', hadv'⟩ := ih (i + 1) σ1 (info.map (store i pid))
      rw [Nat.add_comm n 1]
      refine ⟨hc'.trans hc, ?_, ?_⟩
      · rw [answered_add h1, hiff']
        exact ⟨fun h => ⟨hiff.mp rfl, h⟩, And.right⟩
      · intro h
        have h2 := hadv' h
        constructor
        · rw [h2.contexts, h1.contexts]
        · rw [h2.fails, h1.fails]
        · rw [h2.next, h1.next]
          omega
        · rw [h2.requests, h1.requests]
          omega

/-- The two loops. -/
lemma spawnAll_spec (e : MvarAnswers) (ctxId : Int) (w r : Nat) (σ : MvarSystem)
    (info : Option MvarLaunchInfo) :
    (spawnAll e ctxId w r σ info).1.contexts = σ.contexts ∧
      ((spawnAll e ctxId w r σ info).2.2 = true ↔ Answered e σ (w + r)) := by
  have hwriter : ∀ σ i, Iterates e σ (spawnWriter e ctxId σ i) := fun σ i =>
    spawn_iterates e σ _ _ _ _
  have hreader : ∀ σ i, Iterates e σ (spawnReader e ctxId σ i) := fun σ i =>
    spawn_iterates e σ _ _ _ _
  obtain ⟨hc, hiff, hadv⟩ := spawnLoop_spec storeWriter hwriter w 0 σ info
  rw [spawnAll]
  generalize spawnLoop (spawnWriter e ctxId) storeWriter w 0 σ info = first at hc hiff hadv ⊢
  obtain ⟨σ1, info1, ok⟩ := first
  cases ok with
  | false =>
    refine ⟨hc, iff_of_false Bool.false_ne_true ?_⟩
    rintro ⟨ha, hp⟩
    exact absurd (hiff.mpr ⟨fun j hj => ha j (by omega), fun j hj => hp j (by omega)⟩)
      Bool.false_ne_true
  | true =>
    obtain ⟨hc', hiff', -⟩ := spawnLoop_spec storeReader hreader r 0 σ1 info1
    refine ⟨hc'.trans hc, ?_⟩
    rw [answered_add (hadv rfl), hiff']
    exact ⟨fun h => ⟨hiff.mp rfl, h⟩, And.right⟩

lemma freeContext_none (h : σ.freeContext = none) :
    ∀ i < mvarMaxInstances, (σ.contexts i).inUse = true := by
  intro i hi
  have h' := List.find?_eq_none.mp h i (List.mem_range.mpr hi)
  simpa using h'

lemma freeContext_some (h : σ.freeContext = some i) :
    i < mvarMaxInstances ∧ (σ.contexts i).inUse = false := by
  have hmem := List.mem_of_find?_eq_some h
  have hfree := List.find?_some h
  exact ⟨List.mem_range.mp hmem, by simpa using hfree⟩

lemma restored_refl (σ : MvarSystem) : Restored σ σ where
  contexts _ := rfl
  blocks b hb := by simp [allocatedBetween] at hb
  handles := rfl
  processes := rfl

/-- The context is free again, and nothing else has changed but the identifiers. -/
lemma restored_release (ctx : MvarContext) (hfree : (σ.contexts i).inUse = false)
    (hc : σ'.contexts = update σ.contexts i ctx) (hh : σ'.heap = σ.heap)
    (hs : σ'.handles = σ.handles) (hp : σ'.processes = σ.processes) :
    Restored σ (σ'.release i) where
  contexts j := by
    rw [MvarSystem.release]
    dsimp only
    rw [hc]
    by_cases hj : j = i
    · rw [hj, update_self, hfree]
    · rw [update_of_ne hj, update_of_ne hj]
  blocks b hb := by
    rw [MvarSystem.release, hh] at hb
    simp [allocatedBetween] at hb
  handles := hs
  processes := hp

/-- Opening and closing the semaphores, when one of them cannot be opened. -/
lemma closes_opened {a b : Int} (h : a < 0 ∨ b < 0) (σ : MvarSystem) :
    (if 0 ≤ b then
        (if 0 ≤ a then ((σ.semOpen a).semOpen b).semClose a else (σ.semOpen a).semOpen b).semClose b
      else if 0 ≤ a then ((σ.semOpen a).semOpen b).semClose a else (σ.semOpen a).semOpen b) = σ := by
  by_cases ha : 0 ≤ a
  · have hb : ¬0 ≤ b := by omega
    rw [if_neg hb, if_pos ha, semOpen, if_neg hb, semOpen, if_pos ha, semClose]
    simp
  · by_cases hb : 0 ≤ b
    · rw [if_pos hb, if_neg ha, semOpen, if_pos hb, semOpen, if_neg ha, semClose]
      simp
    · rw [if_neg hb, if_neg ha, semOpen, if_neg hb, semOpen, if_neg ha]

/-- For valid counts, `mvar_start` fails cleanly unless it gets as far as its loops and an allocation
or a process fails there. -/
theorem mvarStart_fails_cleanly {w r : Int} (hw : 0 < w) (hw' : w ≤ mvarMaxWriters) (hr : 0 < r)
    (hr' : r ≤ mvarMaxReaders) (e : MvarAnswers) (σ : MvarSystem) (info : Option MvarLaunchInfo) :
    FailsCleanly e σ w r info ↔ NoLateFailure e σ (w + r).toNat := by
  have hvalid : ¬(w ≤ 0 ∨ r ≤ 0 ∨ (mvarMaxWriters : Int) < w ∨ (mvarMaxReaders : Int) < r) := by
    omega
  rw [FailsCleanly, mvarStart, if_neg hvalid, ctxAllocate]
  cases hfree : σ.freeContext with
  | none => exact iff_of_true (fun _ => restored_refl σ) (Or.inl (freeContext_none hfree))
  | some i =>
    obtain ⟨hi, hin⟩ := freeContext_some hfree
    dsimp only
    generalize hctx : (MvarContext.mk true σ.nextCtxId 0 _ _) = ctx
    have huse : ctx.inUse = true := by rw [← hctx]
    generalize hσ1 : (MvarSystem.mk (update σ.contexts i ctx) (σ.nextCtxId + 1) σ.heap σ.handles
      σ.processes σ.requests) = σ1
    by_cases hsem : e.semEmpty < 0 ∨ e.semFull < 0
    · rw [if_pos hsem]
      dsimp only
      rw [closes_opened hsem]
      refine iff_of_true (fun _ => ?_) (Or.inr (hsem.imp_right Or.inl))
      apply restored_release ctx hin
      all_goals rw [← hσ1]
    · rw [if_neg hsem, semOpen, if_pos (by omega), semOpen, if_pos (by omega)]
      generalize hσ2 : (((MvarSystem.mk _ _ _ _ _ _).semClose e.semEmpty).semClose e.semFull) = σ2
      generalize info.map _ = info'
      have hcount : w.toNat + r.toNat = (w + r).toNat := by omega
      obtain ⟨hc, hiff⟩ := spawnAll_spec e (σ2.contexts i).id w.toNat r.toNat σ2 info'
      have hsame : Answered e σ2 (w + r).toNat ↔ Answered e σ (w + r).toNat := by
        rw [← hσ2, ← hσ1]
        rfl
      have hc2 : σ2.contexts = update σ.contexts i ctx := by
        rw [← hσ2, ← hσ1]
        rfl
      rw [hcount, hsame] at hiff
      replace hc := hc.trans hc2
      generalize spawnAll e (σ2.contexts i).id w.toNat r.toNat σ2 info' = result at hc hiff ⊢
      obtain ⟨σ3, info3, ok⟩ := result
      have hlate : NoLateFailure e σ (w + r).toNat ↔ Answered e σ (w + r).toNat := by
        rw [NoLateFailure, Answered]
        constructor
        · rintro (h | h | h | h)
          · rw [h i hi] at hin
            cases hin
          · exact absurd (Or.inl h) hsem
          · exact absurd (Or.inr h) hsem
          · exact h
        · exact fun h => Or.inr (Or.inr (Or.inr h))
      rw [hlate, ← hiff]
      cases ok with
      | true => exact iff_of_true (fun h => absurd (show (0 : Int) = -1 from h) (by decide)) rfl
      | false =>
        refine iff_of_false (fun h => ?_) Bool.false_ne_true
        -- the context is still in use
        have hkept := (h rfl).contexts i
        dsimp only at hkept hc
        rw [hc, update_self, huse, hin] at hkept
        cases hkept

/-- With no memory for the first argument vector, one writer and one reader. -/
def starved : MvarSystem where
  contexts := fun _ => ⟨false, 0, 0, [], []⟩
  nextCtxId := 1
  heap := ⟨0, fun _ => true, [], fun _ => [], fun _ _ => none⟩
  handles := []
  processes := []
  requests := 0

/-- The second semaphore cannot be opened: the context and the first one are given back. -/
theorem mvarStart_fails_cleanly_sample : (mvarStart ⟨1, -1, fun _ => 3⟩ starved 1 1 none).2.2 = -1 ∧
    FailsCleanly ⟨1, -1, fun _ => 3⟩ starved 1 1 none :=
  ⟨by decide +kernel, (mvarStart_fails_cleanly (by decide) (by decide) (by decide) (by decide) _ _
    _).mpr (Or.inr (Or.inr (Or.inl (by decide))))⟩

/-- The first allocation fails: the call returns -1 and the context stays in use. -/
theorem mvarStart_keeps_context : ¬FailsCleanly ⟨1, 2, fun _ => 3⟩ starved 1 1 none := by
  intro h
  have hkept := (h (by decide +kernel)).contexts 0
  revert hkept
  decide +kernel

end TP2Kernel.Proofs
