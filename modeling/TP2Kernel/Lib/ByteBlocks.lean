import TP2Kernel.Lib.ByteMemory

/-!
# Blocks of bytes

Strings of bytes that stand in a memory, words as strings of bytes, and the copy of a block by
cells of any width.
-/

namespace ByteMemory
open Function

/-- The bytes `bs` stand at `a`. -/
def Stores (mem : ℕ → UInt8) (a : ℕ) (bs : List UInt8) : Prop :=
  ∀ i (hi : i < bs.length), mem (a + i) = bs[i]

/-- The low `n` bytes of `v`, the lowest first. -/
def wordBytes : ℕ → ℕ → List UInt8
  | 0, _ => []
  | n + 1, v => UInt8.ofNat v :: wordBytes n (v / 256)

/-- Copy `n` cells of `w` bytes from `s` to `d`, the lowest cell first. -/
def copyCells (w d s : ℕ) : ℕ → (ℕ → UInt8) → ℕ → UInt8
  | 0, mem => mem
  | n + 1, mem =>
    let mem := copyCells w d s n mem
    writeWord mem w (d + w * n) (readWord mem w (s + w * n))

/-- The memory in which the `n` bytes that stood at `s` stand at `d` too. -/
def move (d s n : ℕ) (mem : ℕ → UInt8) (x : ℕ) : UInt8 :=
  if d ≤ x ∧ x < d + n then mem (s + (x - d)) else mem x

variable {mem mem' : ℕ → UInt8} {a d e m n s v w x : ℕ} {bs cs : List UInt8}

@[simp] lemma length_wordBytes : (wordBytes n v).length = n := by
  induction n generalizing v with
  | zero => rfl
  | succ n ih => rw [wordBytes, List.length_cons, ih]

lemma Stores.congr (h : Stores mem a bs)
    (hx : ∀ x, a ≤ x → x < a + bs.length → mem' x = mem x) : Stores mem' a bs := by
  intro i hi
  rw [hx (a + i) (by omega) (by omega), h i hi]

lemma stores_append :
    Stores mem a (bs ++ cs) ↔ Stores mem a bs ∧ Stores mem (a + bs.length) cs := by
  refine ⟨fun h => ⟨fun i hi => ?_, fun i hi => ?_⟩, fun ⟨h1, h2⟩ i hi => ?_⟩
  · rw [h i (by rw [List.length_append]; omega), List.getElem_append_left hi]
  · have h3 := h (bs.length + i) (by rw [List.length_append]; omega)
    rw [List.getElem_append_right (by omega)] at h3
    rw [Nat.add_assoc, h3]
    congr 1
    omega
  · rw [List.length_append] at hi
    by_cases hb : i < bs.length
    · rw [List.getElem_append_left hb, h1 i hb]
    · rw [List.getElem_append_right (by omega), ← h2 (i - bs.length) (by omega)]
      congr 1
      omega

lemma stores_cons {b : UInt8} :
    Stores mem a (b :: bs) ↔ mem a = b ∧ Stores mem (a + 1) bs := by
  have h : Stores mem a ([b] ++ bs) ↔ Stores mem a [b] ∧ Stores mem (a + 1) bs := stores_append
  rw [← List.singleton_append, h]
  refine and_congr_left fun _ => ⟨fun hb => hb 0 (by simp), fun hb i hi => ?_⟩
  obtain rfl : i = 0 := by simpa using hi
  exact hb

/-- A word is read where its bytes stand. -/
lemma Stores.readWord (h : Stores mem a (wordBytes n v)) : readWord mem n a = v % 256 ^ n := by
  induction n generalizing a v with
  | zero => simp [ByteMemory.readWord, Nat.mod_one]
  | succ n ih =>
    obtain ⟨h1, h2⟩ := stores_cons.mp h
    have hb : (UInt8.ofNat v).toNat = v % 256 := by rw [UInt8.toNat_ofNat']
    rw [ByteMemory.readWord, ih h2, h1, hb, pow_succ', Nat.mod_mul]

/-- The bytes of a word that is read at one address and stored at another. -/
lemma writeWord_readWord {b i : ℕ} (hi : i < w) :
    writeWord mem w a (readWord mem' w b) (a + i) = mem' (b + i) := by
  induction w generalizing a b i with
  | zero => omega
  | succ w ih =>
    have hdiv : readWord mem' (w + 1) b / 256 = readWord mem' w (b + 1) := by
      rw [ByteMemory.readWord, Nat.add_mul_div_left _ _ (by norm_num),
        Nat.div_eq_of_lt (mem' b).toNat_lt, Nat.zero_add]
    rw [writeWord, hdiv]
    cases i with
    | zero =>
      rw [Nat.add_zero a, Nat.add_zero b, update_self, ByteMemory.readWord, ← UInt8.toNat_inj,
        UInt8.toNat_ofNat', Nat.add_mul_mod_self_left, Nat.mod_eq_of_lt (mem' b).toNat_lt]
    | succ i =>
      have ha : a + (i + 1) = a + 1 + i := by omega
      have hb : b + (i + 1) = b + 1 + i := by omega
      rw [update_of_ne (by omega), ha, hb, ih (by omega)]

lemma copyCells_of_notMem (h : x < d ∨ d + w * n ≤ x) : copyCells w d s n mem x = mem x := by
  induction n with
  | zero => rfl
  | succ n ih =>
    rw [Nat.mul_succ] at h
    rw [copyCells, writeWord_of_notMem (by omega), ih (by omega)]

lemma move_of_notMem (h : x < d ∨ d + n ≤ x) : move d s n mem x = mem x := by
  rw [move, if_neg (by omega)]

lemma move_of_mem (h1 : d ≤ x) (h2 : x < d + n) : move d s n mem x = mem (s + (x - d)) := by
  rw [move, if_pos ⟨h1, h2⟩]

/-- The cells are a block, moved as a whole, unless the block starts below the place it is copied
to and reaches into it. -/
lemma copyCells_eq_move (h : d ≤ s ∨ s + w * n ≤ d) :
    copyCells w d s n mem = move d s (w * n) mem := by
  induction n with
  | zero =>
    funext x
    rw [move_of_notMem (by omega)]
    rfl
  | succ n ih =>
    rw [Nat.mul_succ] at h ⊢
    funext x
    rw [copyCells, ih (by omega)]
    by_cases hx : d + w * n ≤ x ∧ x < d + w * n + w
    · -- the cell read last is not one of those written before it
      have hx' : x = d + w * n + (x - (d + w * n)) := by omega
      rw [hx', writeWord_readWord (by omega), ← hx', move_of_notMem (by omega),
        move_of_mem (by omega) (by omega)]
      congr 1
      omega
    · rw [writeWord_of_notMem (by omega)]
      by_cases hd : d ≤ x ∧ x < d + w * n
      · rw [move_of_mem hd.1 hd.2, move_of_mem hd.1 (by omega)]
      · rw [move_of_notMem (by omega), move_of_notMem (by omega)]

/-- Behind its own source, the copy repeats what it has written. -/
lemma copyCells_repeats (h : s + w ≤ d) (hx : x < w * n) :
    copyCells w d s n mem (d + x) = copyCells w d s n mem (s + x) := by
  induction n with
  | zero => omega
  | succ n ih =>
    rw [Nat.mul_succ] at hx
    have hs : copyCells w d s (n + 1) mem (s + x) = copyCells w d s n mem (s + x) := by
      rw [copyCells, writeWord_of_notMem (by omega)]
    rw [hs, copyCells]
    by_cases hlast : w * n ≤ x
    · have hx' : d + x = d + w * n + (x - w * n) := by omega
      rw [hx', writeWord_readWord (by omega)]
      congr 1
      omega
    · rw [writeWord_of_notMem (by omega), ih (by omega)]

lemma stores_move (h : Stores mem s bs) (hn : bs.length ≤ n) : Stores (move d s n mem) d bs := by
  intro i hi
  rw [move_of_mem (by omega) (by omega), Nat.add_sub_cancel_left, h i hi]

end ByteMemory
