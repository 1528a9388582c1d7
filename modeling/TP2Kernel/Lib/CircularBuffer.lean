import Mathlib.Tactic

/-!
# Circular buffers

A circular buffer is a backing store indexed modulo its capacity, a read index, a write index and
a count. `contents` is the queue it represents. Writing a list at the write index
appends it, and reading from the read index removes a prefix.
-/

/-- A circular buffer of capacity `cap`; only the cells `buf i` with `i < cap` are used. -/
structure CircularBuffer (α : Type*) (cap : Nat) where
  buf : Nat → α
  r : Nat
  w : Nat
  size : Nat

namespace CircularBuffer

variable {α : Type*} {cap : Nat}

/-- The bytes held, oldest first. -/
def contents (q : CircularBuffer α cap) : List α :=
  (List.range q.size).map fun i => q.buf ((q.r + i) % cap)

/-- Store one element at the write index. -/
def put (q : CircularBuffer α cap) (x : α) : CircularBuffer α cap :=
  { q with buf := Function.update q.buf q.w x, w := (q.w + 1) % cap, size := q.size + 1 }

/-- Drop the element at the read index. -/
def drop (q : CircularBuffer α cap) : CircularBuffer α cap :=
  { q with r := (q.r + 1) % cap, size := q.size - 1 }

/-- Store a list, one element at a time. -/
def putList (q : CircularBuffer α cap) : List α → CircularBuffer α cap
  | [] => q
  | x :: xs => (q.put x).putList xs

/-- Read `n` elements, one at a time. -/
def takeList (q : CircularBuffer α cap) : Nat → List α × CircularBuffer α cap
  | 0 => ([], q)
  | n + 1 =>
    let rest := q.drop.takeList n
    (q.buf q.r :: rest.1, rest.2)

/-- Both indices are in the buffer and the write index is `size` places after the read
index. -/
structure Wf (q : CircularBuffer α cap) : Prop where
  size_le : q.size ≤ cap
  r_lt : q.r < cap
  w_eq : q.w = (q.r + q.size) % cap

@[simp] lemma contents_length (q : CircularBuffer α cap) : q.contents.length = q.size := by
  simp [contents]

lemma contents_getElem (q : CircularBuffer α cap) (i : Nat) (hi : i < q.contents.length) :
    q.contents[i] = q.buf ((q.r + i) % cap) := by
  simp [contents]

namespace Wf

variable {q : CircularBuffer α cap}

lemma cap_pos (h : q.Wf) : 0 < cap := by
  have := h.r_lt
  omega

lemma w_lt (h : q.Wf) : q.w < cap := by
  rw [h.w_eq]
  exact Nat.mod_lt _ h.cap_pos

/-- Two cells at different distances below `cap` from the read index are different. -/
lemma cell_ne (h : q.Wf) {i j : Nat} (hi : i < cap) (hj : j < cap) (hij : i ≠ j) :
    (q.r + i) % cap ≠ (q.r + j) % cap := by
  have hr := h.r_lt
  have hmod : ∀ k < cap, (q.r + k) % cap = if q.r + k < cap then q.r + k else q.r + k - cap := by
    intro k hk
    split
    · exact Nat.mod_eq_of_lt (by assumption)
    · rw [Nat.mod_eq_sub_mod (by omega), Nat.mod_eq_of_lt (by omega)]
  rw [hmod i hi, hmod j hj]
  split <;> split <;> omega

theorem put (h : q.Wf) (hfull : q.size < cap) (x : α) : (q.put x).Wf where
  size_le := hfull
  r_lt := h.r_lt
  w_eq := by simp only [CircularBuffer.put, h.w_eq, Nat.mod_add_mod, Nat.add_assoc]

theorem contents_put (h : q.Wf) (hfull : q.size < cap) (x : α) :
    (q.put x).contents = q.contents ++ [x] := by
  apply List.ext_getElem
  · simp [CircularBuffer.put]
  · intro i hi hi'
    have hi2 : i < q.size + 1 := by simpa [CircularBuffer.put] using hi
    rw [contents_getElem]
    simp only [CircularBuffer.put, h.w_eq]
    rcases Nat.lt_succ_iff_lt_or_eq.mp hi2 with hlt | rfl
    · rw [Function.update_of_ne (h.cell_ne (by omega) hfull (by omega)),
        List.getElem_append_left (by simpa using hlt), contents_getElem]
    · rw [Function.update_self, List.getElem_append_right (by simp)]
      simp

theorem drop (h : q.Wf) (hne : 0 < q.size) : q.drop.Wf where
  size_le := by
    have := h.size_le
    simp only [CircularBuffer.drop]
    omega
  r_lt := Nat.mod_lt _ h.cap_pos
  w_eq := by
    simp only [CircularBuffer.drop, h.w_eq, Nat.mod_add_mod]
    congr 1
    omega

theorem contents_drop (h : q.Wf) (hne : 0 < q.size) :
    q.contents = q.buf q.r :: q.drop.contents := by
  have hr : q.r % cap = q.r := Nat.mod_eq_of_lt h.r_lt
  apply List.ext_getElem
  · simp only [contents_length, List.length_cons, CircularBuffer.drop]
    omega
  · intro i hi hi'
    rw [contents_getElem]
    cases i with
    | zero => simp [hr]
    | succ i =>
      rw [List.getElem_cons_succ, contents_getElem]
      simp only [CircularBuffer.drop, Nat.mod_add_mod]
      congr 2
      omega

/-- Writing a list that fits appends it. -/
theorem putList (h : q.Wf) (xs : List α) (hfit : q.size + xs.length ≤ cap) :
    (q.putList xs).Wf ∧ (q.putList xs).contents = q.contents ++ xs ∧
      (q.putList xs).size = q.size + xs.length := by
  induction xs generalizing q with
  | nil => simpa [CircularBuffer.putList] using h
  | cons x xs ih =>
    have hlen : q.size + 1 + xs.length ≤ cap := by
      simp only [List.length_cons] at hfit
      omega
    obtain ⟨hw, hc, hs⟩ := ih (h.put (by omega) x) (by simpa [CircularBuffer.put] using hlen)
    refine ⟨hw, ?_, ?_⟩
    · rw [CircularBuffer.putList, hc, h.contents_put (by omega), List.append_assoc, List.singleton_append]
    · rw [CircularBuffer.putList, hs]
      simp only [CircularBuffer.put, List.length_cons]
      omega

/-- Reading at most what is held removes that prefix. -/
theorem takeList (h : q.Wf) (n : Nat) (hn : n ≤ q.size) :
    (q.takeList n).2.Wf ∧ q.contents = (q.takeList n).1 ++ (q.takeList n).2.contents ∧
      (q.takeList n).1.length = n := by
  induction n generalizing q with
  | zero => simpa [CircularBuffer.takeList] using h
  | succ n ih =>
    have hpos : 0 < q.size := by omega
    obtain ⟨hw, hc, hl⟩ := ih (h.drop hpos) (by simp only [CircularBuffer.drop]; omega)
    refine ⟨hw, ?_, ?_⟩
    · rw [h.contents_drop hpos, hc, CircularBuffer.takeList, List.cons_append]
    · simp [CircularBuffer.takeList, hl]

/-- Reading what is asked for, or all that is held. -/
theorem takeList_min (h : q.Wf) (n : Nat) :
    (q.takeList (min q.size n)).2.Wf ∧ (q.takeList (min q.size n)).1 = q.contents.take n ∧
      (q.takeList (min q.size n)).2.contents = q.contents.drop n := by
  obtain ⟨hw, hc, hl⟩ := h.takeList (min q.size n) (Nat.min_le_left _ _)
  have hsize := congrArg List.length hc
  rw [contents_length, List.length_append, hl] at hsize
  generalize q.takeList (min q.size n) = r at hw hc hl hsize
  refine ⟨hw, ?_, ?_⟩
  · by_cases hn : n ≤ q.size
    · rw [hc, List.take_append_of_le_length (by omega), List.take_of_length_le (by omega)]
    · have hnil : r.2.contents = [] := List.eq_nil_of_length_eq_zero (by omega)
      rw [hc, hnil, List.append_nil, List.take_of_length_le (by omega)]
  · by_cases hn : n ≤ q.size
    · rw [hc, List.drop_append, List.drop_eq_nil_of_le (by omega), List.nil_append,
        show n - r.1.length = 0 by omega, List.drop_zero]
    · have hnil : r.2.contents = [] := List.eq_nil_of_length_eq_zero (by omega)
      rw [hc, hnil, List.append_nil, List.drop_eq_nil_of_le (by omega)]

/-- Writing over the oldest element when there is no room. -/
theorem overwrite (h : q.Wf) (x : α) :
    ((if q.size = cap then q.drop else q).put x).Wf ∧
      ((if q.size = cap then q.drop else q).put x).contents =
        (q.contents ++ [x]).drop (q.size + 1 - cap) := by
  have hcap := h.cap_pos
  by_cases hfull : q.size = cap
  · have hd := h.drop (by omega)
    have hroom : q.drop.size < cap := by
      simp only [CircularBuffer.drop]
      omega
    rw [if_pos hfull]
    refine ⟨hd.put hroom x, ?_⟩
    rw [hd.contents_put hroom, h.contents_drop (by omega), hfull, Nat.add_sub_cancel_left,
      List.cons_append, List.drop_one, List.tail_cons]
  · have hroom : q.size < cap := by
      have := h.size_le
      omega
    rw [if_neg hfull]
    refine ⟨h.put hroom x, ?_⟩
    rw [h.contents_put hroom, show q.size + 1 - cap = 0 by omega, List.drop_zero]

end Wf

end CircularBuffer
