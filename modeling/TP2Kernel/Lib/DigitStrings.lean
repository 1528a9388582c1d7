import TP2Kernel.Lib.CString
import Mathlib.Data.Nat.Digits.Lemmas

/-!
# Digit strings in a buffer

The digits of a number are written to a buffer of bounded size, the lowest first, by a loop that
divides, and the string is then turned round in place by two pointers.
-/

namespace DigitStrings
open CString Function

/-- A buffer at address 0, and whether every store so far was to one of its `size` bytes. -/
structure Buffer where
  mem : ℕ → UInt8
  size : ℕ
  inBounds : Bool

namespace Buffer

def store (b : Buffer) (i : ℕ) (c : UInt8) : Buffer :=
  { b with mem := update b.mem i c, inBounds := b.inBounds && decide (i < b.size) }

/-- Store bytes from `i` on. -/
def storeAll (b : Buffer) : ℕ → List UInt8 → Buffer
  | _, [] => b
  | i, c :: cs => storeAll (b.store i c) (i + 1) cs

end Buffer

/-- The digits of `value`, the highest first; zero has one digit. -/
def baseDigits (base value : ℕ) : List ℕ :=
  (if value = 0 then [0] else Nat.digits base value).reverse

/-- The loop `do { *p++ = digit(value % base); } while (value /= base);`, of at most `n` turns:
where `p` stands behind it, and the buffer. -/
def digitLoop (digit : ℕ → UInt8) (base : ℕ) : ℕ → ℕ → ℕ → Buffer → ℕ × Buffer
  | 0, _, p, b => (p, b)
  | n + 1, value, p, b =>
    let b := b.store p (digit (value % base))
    let value := value / base
    if value = 0 then (p + 1, b) else digitLoop digit base n value (p + 1) b

/-- The loop that swaps the bytes at `i` and `j` and moves both on, while `i < j`. -/
def reverseLoop : ℕ → ℕ → ℕ → Buffer → Buffer
  | 0, _, _, b => b
  | n + 1, i, j, b =>
    if i < j then
      reverseLoop n (i + 1) (j - 1) ((b.store i (b.mem j)).store j (b.mem i))
    else b

variable {b b' : Buffer} {base value i j m n p x : ℕ} {s : List UInt8} {digit : ℕ → UInt8}
  {c : UInt8}

namespace Buffer

@[simp] lemma store_size (b : Buffer) (i : ℕ) (c : UInt8) : (b.store i c).size = b.size := rfl

lemma store_inBounds : (b.store i c).inBounds = true ↔ b.inBounds = true ∧ i < b.size := by
  rw [store, Bool.and_eq_true, decide_eq_true_eq]

@[simp] lemma storeAll_size (b : Buffer) (i : ℕ) (s : List UInt8) :
    (b.storeAll i s).size = b.size := by
  induction s generalizing b i with
  | nil => rfl
  | cons c cs ih => exact ih _ _

@[simp] lemma storeAll_mem (b : Buffer) (i : ℕ) (s : List UInt8) :
    (b.storeAll i s).mem = put b.mem i s := by
  induction s generalizing b i with
  | nil => rfl
  | cons c cs ih => exact ih _ _

lemma storeAll_inBounds (hs : s ≠ []) :
    (b.storeAll i s).inBounds = true ↔ b.inBounds = true ∧ i + s.length ≤ b.size := by
  induction s generalizing b i with
  | nil => exact absurd rfl hs
  | cons c cs ih =>
    rw [storeAll, List.length_cons]
    cases cs with
    | nil =>
      rw [storeAll, store_inBounds, List.length_nil]
      rfl
    | cons d ds =>
      rw [ih (List.cons_ne_nil d ds), store_inBounds, store_size]
      constructor
      · rintro ⟨⟨hb, -⟩, hle⟩
        exact ⟨hb, by omega⟩
      · rintro ⟨hb, hle⟩
        rw [List.length_cons] at hle ⊢
        exact ⟨⟨hb, by omega⟩, by omega⟩

lemma storeAll_concat (b : Buffer) (i : ℕ) (s : List UInt8) (c : UInt8) :
    (b.storeAll i s).store (i + s.length) c = b.storeAll i (s ++ [c]) := by
  induction s generalizing b i with
  | nil => rfl
  | cons d ds ih =>
    rw [List.length_cons, List.cons_append, storeAll, storeAll, ← ih, Nat.add_assoc,
      Nat.add_comm ds.length]

end Buffer

lemma baseDigits_ne_nil (base value : ℕ) : baseDigits base value ≠ [] := by
  rw [baseDigits, Ne, List.reverse_eq_nil_iff]
  split
  · exact List.cons_ne_nil 0 []
  · rename_i h
    exact Nat.digits_ne_nil_iff_ne_zero.mpr h

lemma baseDigits_lt (hb : 1 < base) {d : ℕ} (hd : d ∈ baseDigits base value) : d < base := by
  rw [baseDigits, List.mem_reverse] at hd
  split at hd
  · rw [List.mem_singleton] at hd
    omega
  · exact Nat.digits_lt_base hb hd

/-- The digits are those of the value. -/
lemma ofDigits_baseDigits (base value : ℕ) :
    Nat.ofDigits base (baseDigits base value).reverse = value := by
  rw [baseDigits, List.reverse_reverse]
  split
  · rename_i h
    rw [Nat.ofDigits_singleton, h]
  · exact Nat.ofDigits_digits base value

lemma baseDigits_length_le_iff (hb : 1 < base) (hn : 0 < n) :
    (baseDigits base value).length ≤ n ↔ value < base ^ n := by
  rw [baseDigits, List.length_reverse]
  split
  · rename_i h
    rw [h, List.length_singleton]
    exact iff_of_true hn (Nat.pow_pos (by omega))
  · exact Nat.digits_length_le_iff hb value

/-- The last digit stands behind those of the quotient. -/
lemma baseDigits_of_div_ne_zero (hb : 1 < base) (h : value / base ≠ 0) :
    baseDigits base value = baseDigits base (value / base) ++ [value % base] := by
  have hv : value ≠ 0 := by
    rintro rfl
    exact h (Nat.zero_div base)
  rw [baseDigits, baseDigits, if_neg hv, if_neg h, Nat.digits_def' hb (Nat.pos_of_ne_zero hv),
    List.reverse_cons]

lemma baseDigits_of_div_eq_zero (hb : 1 < base) (h : value / base = 0) :
    baseDigits base value = [value % base] := by
  have hlt : value < base := (Nat.div_eq_zero_iff_lt (by omega)).mp h
  rw [baseDigits, Nat.mod_eq_of_lt hlt]
  split
  · rename_i h0
    rw [h0]
    rfl
  · rename_i h0
    rw [Nat.digits_of_lt base value h0 hlt]
    rfl

/-- The loop writes the digits, the lowest first, if its turns reach. -/
theorem digitLoop_eq (hb : 1 < base) (hn : value < base ^ (n + 1)) (p : ℕ) (b : Buffer) :
    digitLoop digit base (n + 1) value p b =
      (p + (baseDigits base value).length,
        b.storeAll p ((baseDigits base value).reverse.map digit)) := by
  induction n generalizing value p b with
  | zero =>
    have h : value / base = 0 := by
      rw [zero_add, pow_one] at hn
      exact Nat.div_eq_of_lt hn
    rw [digitLoop, if_pos h, baseDigits_of_div_eq_zero hb h]
    rfl
  | succ n ih =>
    rw [digitLoop]
    split
    · rename_i h
      rw [baseDigits_of_div_eq_zero hb h]
      rfl
    · rename_i h
      have hdiv : value / base < base ^ (n + 1) := by
        rw [Nat.div_lt_iff_lt_mul (by omega), ← pow_succ]
        exact hn
      rw [ih hdiv, baseDigits_of_div_ne_zero hb h, List.reverse_append, List.length_append,
        List.length_singleton, List.reverse_singleton, List.singleton_append, List.map_cons,
        Buffer.storeAll, Nat.add_right_comm]
      rfl

lemma bytes_both_ends (mem : ℕ → UInt8) (i m : ℕ) :
    bytes mem i (m + 2) = mem i :: (bytes mem (i + 1) m ++ [mem (i + m + 1)]) := by
  rw [bytes, bytes_append, bytes, bytes, show i + 1 + m = i + m + 1 by omega]

/-- Outside the two pointers nothing changes. -/
lemma reverseLoop_of_notMem (h : x < i ∨ j < x) : (reverseLoop n i j b).mem x = b.mem x := by
  induction n generalizing i j b with
  | zero => rfl
  | succ n ih =>
    rw [reverseLoop]
    split
    · rw [ih (by omega)]
      exact (update_of_ne (by omega) _ _).trans (update_of_ne (by omega) _ _)
    · rfl

lemma reverseLoop_inBounds (hj : i < j → j < b.size) :
    (reverseLoop n i j b).inBounds = b.inBounds := by
  induction n generalizing i j b with
  | zero => rfl
  | succ n ih =>
    rw [reverseLoop]
    split
    · rename_i hlt
      have hsize := hj hlt
      have h1 : decide (i < b.size) = true := decide_eq_true (by omega)
      have h2 : decide (j < b.size) = true := decide_eq_true hsize
      rw [ih (fun _ => by rw [Buffer.store_size, Buffer.store_size]; omega)]
      simp only [Buffer.store, h1, h2, Bool.and_true]
    · rfl

lemma reverseLoop_out (h : b.inBounds = false) : (reverseLoop n i j b).inBounds = false := by
  induction n generalizing i j b with
  | zero => exact h
  | succ n ih =>
    rw [reverseLoop]
    split
    · apply ih
      simp only [Buffer.store, h, Bool.false_and]
    · exact h

/-- The loop reverses the bytes from the one pointer to the other. -/
theorem bytes_reverseLoop (hn : m ≤ 2 * n + 1) :
    bytes (reverseLoop n i (i + m - 1) b).mem i m = (bytes b.mem i m).reverse := by
  induction n generalizing i m b with
  | zero =>
    match m, hn with
    | 0, _ => rfl
    | 1, _ => rfl
  | succ n ih =>
    match m, hn with
    | 0, _ => rfl
    | 1, _ =>
      rw [reverseLoop, if_neg (by omega)]
      rfl
    | m + 2, hn =>
      have hj : i + (m + 2) - 1 = i + m + 1 := by omega
      have hj' : i + m + 1 - 1 = i + 1 + m - 1 := by omega
      rw [hj, reverseLoop, if_pos (by omega), hj']
      generalize hb' : (b.store i (b.mem (i + m + 1))).store (i + m + 1) (b.mem i) = b'
      have hfirst : b'.mem i = b.mem (i + m + 1) := by
        rw [← hb']
        exact (update_of_ne (by omega) _ _).trans (update_self _ _ _)
      have hlast : b'.mem (i + m + 1) = b.mem i := by
        rw [← hb']
        exact update_self _ _ _
      have hmid : bytes b'.mem (i + 1) m = bytes b.mem (i + 1) m := by
        rw [← hb']
        refine bytes_congr fun x h1 h2 => ?_
        exact (update_of_ne (by omega) _ _).trans (update_of_ne (by omega) _ _)
      rw [bytes_both_ends, bytes_both_ends, reverseLoop_of_notMem (by omega), ih (by omega),
        reverseLoop_of_notMem (by omega), hfirst, hmid, hlast]
      simp

/-- The string `s` written from its end, terminated and turned round. -/
def Buffer.turned (b : Buffer) (s : List UInt8) : Buffer :=
  reverseLoop s.length 0 (s.length - 1) ((b.storeAll 0 s).store s.length 0)

lemma bytes_turned (b : Buffer) (s : List UInt8) :
    bytes (b.turned s).mem 0 s.length = s.reverse := by
  have h := bytes_reverseLoop (i := 0) (m := s.length) (n := s.length)
    (b := (b.storeAll 0 s).store s.length 0) (by omega)
  have hmem : ((b.storeAll 0 s).store s.length 0).mem = store b.mem 0 s := by
    rw [Buffer.store, CString.store, Buffer.storeAll_mem, zero_add]
  rw [zero_add, hmem, bytes_store] at h
  exact h

lemma turned_end (hs : s ≠ []) (b : Buffer) : (b.turned s).mem s.length = 0 := by
  have hpos : 0 < s.length := List.length_pos_iff.mpr hs
  rw [Buffer.turned, reverseLoop_of_notMem (.inr (by omega))]
  exact update_self _ _ _

/-- The string read back, up to its terminator. -/
lemma read_turned (hs : s ≠ []) (h0 : 0 ∉ s) (hn : s.length < n) (b : Buffer) :
    read (b.turned s).mem 0 n = s.reverse := by
  rw [read_eq_bytes (m := s.length) _ _ hn, bytes_turned]
  · rwa [bytes_turned, List.mem_reverse]
  · rw [zero_add, turned_end hs]

lemma turned_inBounds (hs : s ≠ []) (b : Buffer) :
    (b.turned s).inBounds = true ↔ b.inBounds = true ∧ s.length < b.size := by
  have hin : ((b.storeAll 0 s).store s.length 0).inBounds = true ↔
      b.inBounds = true ∧ s.length < b.size := by
    rw [Buffer.store_inBounds, Buffer.storeAll_inBounds hs, Buffer.storeAll_size, zero_add,
      and_assoc]
    exact and_congr_right fun _ => and_iff_right_of_imp le_of_lt
  rw [← hin, Buffer.turned]
  cases hb : ((b.storeAll 0 s).store s.length 0).inBounds with
  | false => rw [reverseLoop_out hb]
  | true =>
    have hlt := (hin.mp hb).2
    rw [reverseLoop_inBounds, hb]
    rw [Buffer.store_size, Buffer.storeAll_size]
    omega

end DigitStrings
