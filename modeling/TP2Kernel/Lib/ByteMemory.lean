import Mathlib.Tactic

/-!
# Byte-addressed memory

Memory as a function from addresses to bytes, with words of any width, stored least
significant byte first.
-/

namespace ByteMemory
open Function

/-- The word of `n` bytes at `a`. -/
def readWord (mem : ℕ → UInt8) : ℕ → ℕ → ℕ
  | 0, _ => 0
  | n + 1, a => (mem a).toNat + 256 * readWord mem n (a + 1)

/-- Store the low `n` bytes of `v` at `a`. -/
def writeWord (mem : ℕ → UInt8) : ℕ → ℕ → ℕ → ℕ → UInt8
  | 0, _, _ => mem
  | n + 1, a, v => update (writeWord mem n (a + 1) (v / 256)) a (UInt8.ofNat v)

/-- Store the byte `c` in the `n` bytes from `a` on, the last of them first. -/
def fill (mem : ℕ → UInt8) (a : ℕ) (c : UInt8) : ℕ → ℕ → UInt8
  | 0 => mem
  | n + 1 => fill (update mem (a + n) c) a c n

variable {mem mem' : ℕ → UInt8} {a b m n v x : ℕ}

lemma readWord_congr (h : ∀ x, a ≤ x → x < a + n → mem' x = mem x) :
    readWord mem' n a = readWord mem n a := by
  induction n generalizing a with
  | zero => rfl
  | succ n ih =>
    have hr : readWord mem' n (a + 1) = readWord mem n (a + 1) := by
      apply ih
      intro x hx hlt
      apply h <;> omega
    rw [readWord, readWord, hr, h a le_rfl (by omega)]

/-- The low bytes of a word are a word at the same address. -/
lemma readWord_low (mem : ℕ → UInt8) (m k a : ℕ) :
    readWord mem (m + k) a % 256 ^ m = readWord mem m a := by
  induction m generalizing a with
  | zero => simp [readWord, Nat.mod_one]
  | succ m ih =>
    have h1 := ih (a + 1)
    have h2 := (mem a).toNat_lt
    have e : m + 1 + k = m + k + 1 := by omega
    rw [e, readWord, readWord, ← h1, pow_succ']
    generalize readWord mem (m + k) (a + 1) = w
    rw [Nat.add_mod, Nat.mul_mod_mul_left, Nat.mod_eq_of_lt]
    · rw [Nat.mod_eq_of_lt]
      have : 0 < 256 ^ m := by positivity
      nlinarith
    · have h3 : w % 256 ^ m < 256 ^ m := Nat.mod_lt _ (by positivity)
      have h4 : (mem a).toNat % (256 * 256 ^ m) ≤ (mem a).toNat := Nat.mod_le _ _
      omega

lemma writeWord_of_notMem (h : x < a ∨ a + n ≤ x) : writeWord mem n a v x = mem x := by
  induction n generalizing a v with
  | zero => rfl
  | succ n ih =>
    rw [writeWord, update_of_ne (by omega)]
    exact ih (by omega)

lemma readWord_writeWord : readWord (writeWord mem n a v) n a = v % 256 ^ n := by
  induction n generalizing a v with
  | zero => simp [readWord, Nat.mod_one]
  | succ n ih =>
    have hr : readWord (writeWord mem (n + 1) a v) n (a + 1) = v / 256 % 256 ^ n := by
      rw [← ih (a := a + 1) (v := v / 256)]
      apply readWord_congr
      intro x hx _
      rw [writeWord, update_of_ne (by omega)]
    have hb : (writeWord mem (n + 1) a v a).toNat = v % 256 := by
      rw [writeWord, update_self, UInt8.toNat_ofNat']
    rw [readWord, hr, hb, pow_succ', Nat.mod_mul]

lemma readWord_writeWord_apart (h : b + m ≤ a ∨ a + n ≤ b) :
    readWord (writeWord mem n a v) m b = readWord mem m b := by
  apply readWord_congr
  intro x hx hlt
  apply writeWord_of_notMem
  omega

lemma fill_of_notMem {c : UInt8} (h : x < a ∨ a + n ≤ x) : fill mem a c n x = mem x := by
  induction n generalizing mem with
  | zero => rfl
  | succ n ih =>
    rw [fill, ih (by omega), update_of_ne (by omega)]

lemma fill_of_mem {c : UInt8} (h1 : a ≤ x) (h2 : x < a + n) : fill mem a c n x = c := by
  induction n generalizing mem with
  | zero => omega
  | succ n ih =>
    rw [fill]
    by_cases hx : x = a + n
    · rw [fill_of_notMem (by omega), hx, update_self]
    · exact ih (by omega)

lemma readWord_fill_apart {c : UInt8} (h : b + m ≤ a ∨ a + n ≤ b) :
    readWord (fill mem a c n) m b = readWord mem m b := by
  apply readWord_congr
  intro x hx hlt
  apply fill_of_notMem
  omega

lemma readWord_fill_zero (h1 : a ≤ b) (h2 : b + m ≤ a + n) : readWord (fill mem a 0 n) m b = 0 := by
  induction m generalizing b with
  | zero => rfl
  | succ m ih =>
    rw [readWord, fill_of_mem h1 (by omega), ih (by omega) (by omega)]
    rfl

end ByteMemory
