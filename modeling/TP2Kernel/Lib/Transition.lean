import Mathlib.Tactic

/-!
# Labelled transition systems

A system is a partial step function on states and events. `Reach` collects the states of
the runs whose every step meets a side condition, and `Reach.invariant` is the induction
over such runs.
-/

namespace Transition

variable {σ ε : Type*}

/-- The states that runs from `init` visit when every event is taken where `ok` holds. -/
inductive Reach (init : σ → Prop) (step : σ → ε → Option σ) (ok : σ → ε → Prop) : σ → Prop
  | start {s : σ} (h : init s) : Reach init step ok s
  | next {s s' : σ} {e : ε} (h : Reach init step ok s) (hok : ok s e)
      (hs : step s e = some s') : Reach init step ok s'

variable {init : σ → Prop} {step : σ → ε → Option σ} {ok : σ → ε → Prop}

/-- What holds at the start and is kept by every permitted step holds in every state. -/
theorem Reach.invariant {I : σ → Prop} (h0 : ∀ s, init s → I s)
    (hstep : ∀ s e s', I s → ok s e → step s e = some s' → I s') {s : σ}
    (h : Reach init step ok s) : I s := by
  induction h with
  | start h => exact h0 _ h
  | next h hok hs ih => exact hstep _ _ _ ih hok hs

/-- Weakening the side condition only adds runs. -/
theorem Reach.mono {ok' : σ → ε → Prop} (hok : ∀ s e, ok s e → ok' s e) {s : σ}
    (h : Reach init step ok s) : Reach init step ok' s := by
  induction h with
  | start h => exact .start h
  | next _ ho hs ih => exact .next ih (hok _ _ ho) hs

/-- The states after a fixed sequence of events, if every one of them is possible. -/
def run (step : σ → ε → Option σ) : σ → List ε → Option σ
  | s, [] => some s
  | s, e :: es => (step s e).bind fun s' => run step s' es

lemma run_append {s s' : σ} {es es' : List ε} (h : run step s es = some s') :
    run step s (es ++ es') = run step s' es' := by
  induction es generalizing s with
  | nil =>
    cases h
    rfl
  | cons e es ih =>
    obtain ⟨t, ht, h⟩ := Option.bind_eq_some_iff.mp h
    rw [List.cons_append, run, ht]
    exact ih h

/-- A fixed run whose events are permitted in every state reaches its end. -/
lemma Reach.of_run_ok {s s' : σ} {es : List ε} (h : Reach init step ok s)
    (hok : ∀ e ∈ es, ∀ t, ok t e) (hr : run step s es = some s') : Reach init step ok s' := by
  induction es generalizing s with
  | nil =>
    cases hr
    exact h
  | cons e es ih =>
    obtain ⟨t, ht, hr⟩ := Option.bind_eq_some_iff.mp hr
    have h1 := h.next (hok e List.mem_cons_self s) ht
    exact ih h1 (fun e' he' => hok e' (List.mem_cons_of_mem e he')) hr

/-- A fixed run without a side condition reaches its end. -/
lemma Reach.of_run {s s' : σ} {es : List ε} (h : Reach init step (fun _ _ => True) s)
    (hr : run step s es = some s') : Reach init step (fun _ _ => True) s' :=
  h.of_run_ok (fun _ _ _ => trivial) hr

/-- The state after a fixed sequence of events, if every one of them is possible and permitted
by a decidable condition. -/
def runIf (step : σ → ε → Option σ) (okb : σ → ε → Bool) : σ → List ε → Option σ
  | s, [] => some s
  | s, e :: es => if okb s e then (step s e).bind fun s' => runIf step okb s' es else none

lemma Reach.of_runIf {okb : σ → ε → Bool} {s s' : σ} {es : List ε}
    (h : Reach init step (fun s e => okb s e) s) (hr : runIf step okb s es = some s') :
    Reach init step (fun s e => okb s e) s' := by
  induction es generalizing s with
  | nil =>
    cases hr
    exact h
  | cons e es ih =>
    rw [runIf] at hr
    split at hr
    · rename_i hok
      obtain ⟨t, ht, hr⟩ := Option.bind_eq_some_iff.mp hr
      exact ih (h.next hok ht) hr
    · cases hr

/-- Where a permitted run of `es` from `s` ends. -/
def final (step : σ → ε → Option σ) (okb : σ → ε → Bool) (s : σ) (es : List ε) : σ :=
  (runIf step okb s es).getD s

lemma Reach.final {okb : σ → ε → Bool} {s : σ} (es : List ε) (h : init s)
    (hr : (runIf step okb s es).isSome) :
    Reach init step (fun s e => okb s e) (final step okb s es) := by
  apply Reach.of_runIf (.start h)
  obtain ⟨s', hs'⟩ := Option.isSome_iff_exists.mp hr
  rw [Transition.final, hs']
  rfl

/-- The system with a counter of the events that `hits` holds of. -/
def counted (step : σ → ε → Option σ) (hits : σ → ε → Bool) (τ : σ × ℕ) (e : ε) :
    Option (σ × ℕ) :=
  (step τ.1 e).map fun s => (s, if hits τ.1 e then τ.2 + 1 else τ.2)

/-- What every permitted step lowers by one if it is counted, and never raises, bounds the
counter. -/
theorem Reach.count_add_rank_le {hits : σ → ε → Bool} {I : σ → Prop} {rank : σ → ℤ} {s0 : σ}
    {τ : σ × ℕ} (h0 : I s0)
    (hstep : ∀ s e s', I s → ok s e → step s e = some s' →
      I s' ∧ rank s' + (if hits s e then 1 else 0) ≤ rank s)
    (h : Reach (· = (s0, 0)) (counted step hits) (fun τ e => ok τ.1 e) τ) :
    I τ.1 ∧ τ.2 + rank τ.1 ≤ rank s0 := by
  induction h with
  | start h =>
    subst h
    exact ⟨h0, by simp⟩
  | next h hok hs ih =>
    obtain ⟨s', hs', rfl⟩ := Option.map_eq_some_iff.mp hs
    obtain ⟨hI, hr⟩ := hstep _ _ _ ih.1 hok hs'
    refine ⟨hI, ?_⟩
    have hsum := ih.2
    dsimp only at hr ⊢
    split at hr
    · rename_i hc
      rw [if_pos hc]
      push_cast
      omega
    · rename_i hc
      rw [if_neg hc]
      omega

end Transition
