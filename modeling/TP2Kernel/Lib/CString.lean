import Mathlib.Tactic

/-!
# C strings in memory

Memory as a function from addresses to bytes. A C string is what stands before the first zero
byte; storing one stores the zero byte behind it.
-/

namespace CString
open Function

/-- The `n` bytes from `a` on. -/
def bytes (mem : ℕ → UInt8) : ℕ → ℕ → List UInt8
  | _, 0 => []
  | a, n + 1 => mem a :: bytes mem (a + 1) n

/-- The C string at `a`, of which at most `n` bytes are read. -/
def read (mem : ℕ → UInt8) : ℕ → ℕ → List UInt8
  | _, 0 => []
  | a, n + 1 => if mem a = 0 then [] else mem a :: read mem (a + 1) n

/-- Store bytes from `a` on. -/
def put (mem : ℕ → UInt8) : ℕ → List UInt8 → ℕ → UInt8
  | _, [] => mem
  | a, c :: cs => put (update mem a c) (a + 1) cs

/-- Store a string at `a`, and the zero byte behind it. -/
def store (mem : ℕ → UInt8) (a : ℕ) (s : List UInt8) : ℕ → UInt8 :=
  update (put mem a s) (a + s.length) 0

variable {mem mem' : ℕ → UInt8} {a m n x : ℕ} {s : List UInt8}

@[simp] lemma bytes_length (mem : ℕ → UInt8) (a n : ℕ) : (bytes mem a n).length = n := by
  induction n generalizing a with
  | zero => rfl
  | succ n ih => simp [bytes, ih]

lemma bytes_congr (h : ∀ x, a ≤ x → x < a + n → mem' x = mem x) :
    bytes mem' a n = bytes mem a n := by
  induction n generalizing a with
  | zero => rfl
  | succ n ih =>
    rw [bytes, bytes, h a (by omega) (by omega), ih fun x h1 h2 => h x (by omega) (by omega)]

lemma bytes_append (mem : ℕ → UInt8) (a m n : ℕ) :
    bytes mem a (m + n) = bytes mem a m ++ bytes mem (a + m) n := by
  induction m generalizing a with
  | zero => simp [bytes]
  | succ m ih =>
    rw [show m + 1 + n = m + n + 1 by omega, bytes, bytes, ih, List.cons_append]
    congr 3
    omega

lemma bytes_succ (mem : ℕ → UInt8) (n : ℕ) : bytes mem 0 (n + 1) = bytes mem 0 n ++ [mem n] := by
  rw [bytes_append, zero_add, bytes, bytes]

lemma bytes_getElem (h : x < (bytes mem a n).length) : (bytes mem a n)[x] = mem (a + x) := by
  induction n generalizing a x with
  | zero => simp [bytes] at h
  | succ n ih =>
    cases x with
    | zero => rfl
    | succ x =>
      rw [bytes_length] at h
      simp only [bytes, List.getElem_cons_succ]
      rw [ih]
      · congr 1
        omega

lemma bytes_drop (mem : ℕ → UInt8) (a : ℕ) (h : m ≤ n) :
    (bytes mem a n).drop m = bytes mem (a + m) (n - m) := by
  have hsplit := bytes_append mem a m (n - m)
  rw [Nat.add_sub_cancel' h] at hsplit
  rw [hsplit, List.drop_left' (bytes_length mem a m)]

/-- A string whose zero byte is `m` bytes behind its start. -/
lemma read_eq_bytes (h : 0 ∉ bytes mem a m) (h0 : mem (a + m) = 0) (hn : m < n) :
    read mem a n = bytes mem a m := by
  induction m generalizing a n with
  | zero =>
    obtain ⟨n, rfl⟩ : ∃ k, n = k + 1 := ⟨n - 1, by omega⟩
    rw [read, if_pos (by simpa using h0), bytes]
  | succ m ih =>
    obtain ⟨n, rfl⟩ : ∃ k, n = k + 1 := ⟨n - 1, by omega⟩
    rw [bytes, List.mem_cons, not_or] at h
    rw [read, if_neg (Ne.symm h.1), bytes, ih h.2 (by rw [← h0]; congr 1; omega) (by omega)]

lemma zero_notMem_read (mem : ℕ → UInt8) (a n : ℕ) : 0 ∉ read mem a n := by
  induction n generalizing a with
  | zero => simp [read]
  | succ n ih =>
    rw [read]
    split
    · simp
    · rename_i h
      simp [Ne.symm h, ih]

/-- A string that ends within the `n` bytes. -/
lemma read_length_lt (h : x < n) (h0 : mem (a + x) = 0) : (read mem a n).length ≤ x := by
  induction n generalizing a x with
  | zero => omega
  | succ n ih =>
    rw [read]
    split
    · simp
    · rename_i hne
      cases x with
      | zero => exact absurd h0 hne
      | succ x =>
        rw [List.length_cons]
        have := ih (a := a + 1) (x := x) (by omega) (by rw [← h0]; congr 1; omega)
        omega

lemma put_of_notMem (h : x < a ∨ a + s.length ≤ x) : put mem a s x = mem x := by
  induction s generalizing mem a with
  | nil => rfl
  | cons c cs ih =>
    rw [List.length_cons] at h
    rw [put, ih (by omega), update_of_ne (by omega)]

lemma bytes_put (mem : ℕ → UInt8) (a : ℕ) (s : List UInt8) :
    bytes (put mem a s) a s.length = s := by
  induction s generalizing mem a with
  | nil => rfl
  | cons c cs ih =>
    rw [List.length_cons, bytes, put, ih, put_of_notMem (by omega), update_self]

lemma store_of_notMem (h : x < a ∨ a + s.length < x) : store mem a s x = mem x := by
  rw [store, update_of_ne (by omega), put_of_notMem (by omega)]

@[simp] lemma store_end (mem : ℕ → UInt8) (a : ℕ) (s : List UInt8) :
    store mem a s (a + s.length) = 0 := by
  rw [store, update_self]

lemma bytes_store (mem : ℕ → UInt8) (a : ℕ) (s : List UInt8) :
    bytes (store mem a s) a s.length = s := by
  rw [store, bytes_congr fun x _ h2 => update_of_ne (by omega) 0 (put mem a s), bytes_put]

/-- A string behind which memory is zero is read back. -/
lemma read_put (h : 0 ∉ s) (h0 : mem (a + s.length) = 0) (hn : s.length < n) :
    read (put mem a s) a n = s := by
  rw [read_eq_bytes (m := s.length) _ _ hn, bytes_put]
  · rwa [bytes_put]
  · rwa [put_of_notMem (by omega)]

end CString
