import Mathlib.Tactic

/-!
# While loops

A loop is a condition and a body on its state. `Turns` says how often the body runs before the
loop ends, with a rule for what every turn finds and one for the end; `run` evaluates a loop with
a bound on its turns.
-/

namespace WhileLoop
open Function

variable {σ : Type*}

/-- The body runs `n` times, and then the condition fails. -/
structure Turns (cond : σ → Prop) (body : σ → σ) (s : σ) (n : ℕ) : Prop where
  runs : ∀ j < n, cond (body^[j] s)
  ends : ¬cond (body^[n] s)

/-- At most `k` turns of a loop. -/
def run (cond : σ → Prop) [DecidablePred cond] (body : σ → σ) : ℕ → σ → σ
  | 0, s => s
  | k + 1, s => if cond s then run cond body k (body s) else s

variable {cond : σ → Prop} {body : σ → σ} {I : σ → Prop} {m : σ → ℕ} {s : σ} {n k : ℕ}

lemma Turns.zero (h : ¬cond s) : Turns cond body s 0 := ⟨fun _ h => absurd h (by omega), h⟩

lemma Turns.succ (hc : cond s) (h : Turns cond body (body s) n) : Turns cond body s (n + 1) := by
  refine ⟨fun j hj => ?_, h.ends⟩
  cases j with
  | zero => exact hc
  | succ j => exact h.runs j (by omega)

/-- A loop with a bound that its turns do not reach. -/
lemma Turns.run_eq [DecidablePred cond] (h : Turns cond body s n) (hk : n ≤ k) :
    run cond body k s = body^[n] s := by
  induction n generalizing s k with
  | zero =>
    cases k with
    | zero => rfl
    | succ k => exact if_neg h.ends
  | succ n ih =>
    obtain ⟨k, rfl⟩ : ∃ j, k = j + 1 := ⟨k - 1, by omega⟩
    have h' : Turns cond body (body s) n := ⟨fun j hj => h.runs (j + 1) (by omega), h.ends⟩
    have hc : cond s := h.runs 0 (by omega)
    rw [run, if_pos hc, ih h' (by omega), iterate_succ_apply]

/-- What holds before the loop and is kept by every turn holds before every turn and behind the
loop. -/
lemma Turns.invariant (h : Turns cond body s n) (h0 : I s)
    (hstep : ∀ t, I t → cond t → I (body t)) {j : ℕ} (hj : j ≤ n) : I (body^[j] s) := by
  induction j with
  | zero => exact h0
  | succ j ih =>
    rw [iterate_succ_apply']
    exact hstep _ (ih (by omega)) (h.runs j (by omega))

/-- A loop every turn of which lowers a measure ends. -/
theorem exists_turns (h0 : I s) (hstep : ∀ t, I t → cond t → I (body t) ∧ m (body t) < m t) :
    ∃ n ≤ m s, Turns cond body s n := by
  induction hm : m s using Nat.strong_induction_on generalizing s with
  | _ k ih =>
    by_cases hc : cond s
    · obtain ⟨hI, hlt⟩ := hstep s h0 hc
      obtain ⟨n, hn, hturns⟩ := ih (m (body s)) (by omega) hI rfl
      exact ⟨n + 1, by omega, hturns.succ hc⟩
    · exact ⟨0, by omega, .zero hc⟩

end WhileLoop
