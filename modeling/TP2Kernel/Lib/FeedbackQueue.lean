import Mathlib.Tactic

/-!
# Multilevel feedback queues

One queue for each level, the highest level first. Elements that are due move up by one level
before the head of the highest level with a queue is taken.
-/

namespace FeedbackQueue
open Function

variable {α : Type*} {n : ℕ}

/-- The queue of each level, its head first. -/
abbrev Levels (n : ℕ) (α : Type*) := Fin n → List α

/-- `a` enters level `l` behind the elements that are there. -/
def append (q : Levels n α) (l : Fin n) (a : α) : Levels n α := update q l (q l ++ [a])

/-- The queue of the level below `l`. -/
def below (q : Levels n α) (l : Fin n) : List α :=
  if h : 0 < l.val then q ⟨l.val - 1, by omega⟩ else []

/-- An element leaves level `l` when it is due and the level is not the highest one. -/
def rises (due : α → Bool) (l : Fin n) (a : α) : Bool := decide (l.val + 1 < n) && due a

/-- The due elements move up by one level, in their order and behind the elements that stay. -/
def raise (due : α → Bool) (q : Levels n α) : Levels n α := fun l =>
  (q l).filter (fun a => !rises due l a) ++ (below q l).filter due

/-- `a` heads the highest level with a queue, and `rest` is behind it. -/
structure IsTop (q : Levels n α) (l : Fin n) (a : α) (rest : List α) : Prop where
  head : q l = a :: rest
  above : ∀ l', l < l' → q l' = []

section Membership

variable {due : α → Bool} {q : Levels n α} {a x : α} {l : Fin n}

lemma mem_below : x ∈ below q l ↔ ∃ l' : Fin n, l'.val + 1 = l.val ∧ x ∈ q l' := by
  unfold below
  split
  · rename_i h
    constructor
    · exact fun hx => ⟨⟨l.val - 1, by omega⟩, by dsimp only; omega, hx⟩
    · rintro ⟨l', hl, hx⟩
      have he : l' = ⟨l.val - 1, by omega⟩ := by
        ext
        dsimp only
        omega
      exact he ▸ hx
  · rename_i h
    simp only [List.not_mem_nil, false_iff]
    rintro ⟨l', hl, -⟩
    omega

lemma mem_raise : x ∈ raise due q l ↔
    (x ∈ q l ∧ rises due l x = false) ∨ ∃ l' : Fin n, l'.val + 1 = l.val ∧ x ∈ q l' ∧ due x := by
  simp only [raise, List.mem_append, List.mem_filter, Bool.not_eq_true', mem_below]
  grind

/-- Moving up neither loses an element nor adds one. -/
theorem exists_mem_raise : (∃ l, x ∈ raise due q l) ↔ ∃ l, x ∈ q l := by
  constructor
  · rintro ⟨l, hx⟩
    obtain ⟨hx, -⟩ | ⟨l', -, hx, -⟩ := mem_raise.mp hx
    · exact ⟨l, hx⟩
    · exact ⟨l', hx⟩
  · rintro ⟨l, hx⟩
    by_cases hr : rises due l x
    · have hr' := hr
      simp only [rises, Bool.and_eq_true, decide_eq_true_eq] at hr'
      exact ⟨⟨l.val + 1, hr'.1⟩, mem_raise.mpr (.inr ⟨l, rfl, hx, hr'.2⟩)⟩
    · exact ⟨l, mem_raise.mpr (.inl ⟨hx, by simpa using hr⟩)⟩

/-- On the highest level elements only arrive. -/
lemma raise_top (hl : l.val + 1 = n) : raise due q l = q l ++ (below q l).filter due := by
  rw [raise, List.filter_eq_self.mpr]
  intro a _
  simp [rises, hl]

/-- Without elements nothing moves up. -/
lemma raise_eq_nil : (∀ l, raise due q l = []) ↔ ∀ l, q l = [] := by
  simp only [List.eq_nil_iff_forall_not_mem]
  constructor
  · intro h l x hx
    obtain ⟨l', hl⟩ := exists_mem_raise.mpr ⟨l, hx⟩
    exact h l' x hl
  · intro h l x hx
    obtain ⟨l', hl⟩ := exists_mem_raise.mp ⟨l, hx⟩
    exact h l' x hl

/-- No element is above the highest non-empty level. -/
lemma IsTop.level_le {rest : List α} (h : IsTop q l a rest) {l' : Fin n} (hx : x ∈ q l') :
    l' ≤ l := by
  by_contra hl
  rw [h.above l' (not_le.mp hl)] at hx
  cases hx

/-- Where no element is queued twice, taking the head leaves all others. -/
theorem IsTop.exists_mem_pop {rest : List α} (h : IsTop q l a rest) (hnd : (q l).Nodup)
    (hd : ∀ l', l' ≠ l → a ∉ q l') :
    (∃ l', x ∈ update q l rest l') ↔ (∃ l', x ∈ q l') ∧ x ≠ a := by
  rw [h.head, List.nodup_cons] at hnd
  constructor
  · rintro ⟨l', hx⟩
    by_cases hl : l' = l
    · rw [hl, update_self] at hx
      refine ⟨⟨l, by rw [h.head]; exact List.mem_cons_of_mem a hx⟩, ?_⟩
      rintro rfl
      exact hnd.1 hx
    · rw [update_of_ne hl] at hx
      refine ⟨⟨l', hx⟩, ?_⟩
      rintro rfl
      exact hd l' hl hx
  · rintro ⟨⟨l', hx⟩, hne⟩
    by_cases hl : l' = l
    · rw [hl, h.head] at hx
      refine ⟨l, ?_⟩
      rw [update_self]
      exact (List.mem_cons.mp hx).resolve_left hne
    · exact ⟨l', by rwa [update_of_ne hl]⟩

end Membership

section Positions

variable [DecidableEq α] {due : α → Bool} {q : Levels n α} {a x : α} {l : Fin n}

/-- Taking another element out of a list moves no element back. -/
lemma idxOf_erase_le (hx : x ≠ a) (s : List α) : (s.erase a).idxOf x ≤ s.idxOf x := by
  induction s with
  | nil => rfl
  | cons b s ih =>
    by_cases hb : b = a
    · subst hb
      rw [List.erase_cons_head, List.idxOf_cons_ne _ hx.symm]
      exact Nat.le_succ _
    · rw [List.erase_cons_tail (by simpa using hb)]
      by_cases hbx : b = x
      · simp [hbx]
      · rw [List.idxOf_cons_ne _ hbx, List.idxOf_cons_ne _ hbx]
        exact Nat.succ_le_succ ih

/-- A selection that takes another element brings an element of the highest level forward. -/
theorem IsTop.idxOf_rest {rest : List α} {m : Fin n} (h : IsTop (raise due q) m a rest)
    (hl : l.val + 1 = n) (hx : x ∈ q l) (hne : x ≠ a) :
    m = l ∧ rest.idxOf x + 1 = (q l).idxOf x := by
  have hr : raise due q l = q l ++ (below q l).filter due := raise_top hl
  have hx' : x ∈ raise due q l := by
    rw [hr]
    exact List.mem_append_left _ hx
  obtain rfl : m = l := by
    have hle := h.level_le hx'
    rw [Fin.le_def] at hle
    ext
    have := m.isLt
    omega
  refine ⟨rfl, ?_⟩
  have hi : (raise due q m).idxOf x = (q m).idxOf x := by
    rw [hr, List.idxOf_append_of_mem hx]
  rw [← hi, h.head, List.idxOf_cons_ne _ hne.symm]

end Positions

end FeedbackQueue
