import TP2Kernel.NumberStrings
import TP2Kernel.Proofs.ParseUtils

/-!
# Numbers as strings

`uintToBase` writes the digits of every value and fills its buffer to the last byte but one for
the longest ones, of 64 bits; `itoa` writes the decimal representation of every value that it can
negate.
-/

namespace TP2Kernel.Proofs
open Function CString DigitStrings

variable {value : UInt64} {base : UInt32} {b : Buffer} {around : ℤ → UInt8} {n p d : ℕ}

/-- The value stands in the buffer, its digits highest first, and nothing was stored outside. -/
structure WritesBase (value base : ℕ) (out : UInt32 × Buffer) : Prop where
  digits : bytes out.2.mem 0 (baseDigits base value).length =
    (baseDigits base value).map baseDigit
  terminated : out.2.mem (baseDigits base value).length = 0
  count : out.1.toNat = (baseDigits base value).length
  inBounds : out.2.inBounds = true

/-- Digits as the loops store them: lowest first. -/
def lowFirst (base value : ℕ) (digit : ℕ → UInt8) : List UInt8 :=
  (baseDigits base value).reverse.map digit

lemma lowFirst_length (base value : ℕ) (digit : ℕ → UInt8) :
    (lowFirst base value digit).length = (baseDigits base value).length := by
  rw [lowFirst, List.length_map, List.length_reverse]

lemma lowFirst_reverse (base value : ℕ) (digit : ℕ → UInt8) :
    (lowFirst base value digit).reverse = (baseDigits base value).map digit := by
  rw [lowFirst, List.map_reverse, List.reverse_reverse]

lemma lowFirst_ne_nil (base value : ℕ) (digit : ℕ → UInt8) : lowFirst base value digit ≠ [] := by
  rw [lowFirst, Ne, List.map_eq_nil_iff, List.reverse_eq_nil_iff]
  exact baseDigits_ne_nil base value

lemma lt_base_pow (hb : 1 < n) (value : UInt64) : value.toNat < n ^ (63 + 1) :=
  value.toNat_lt.trans_le (Nat.pow_le_pow_left hb 64)

lemma uintToBase_eq (hb : 1 < base.toNat) (value : UInt64) (b : Buffer) :
    uintToBase value b base =
      (UInt32.ofNat (baseDigits base.toNat value.toNat).length,
        b.turned (lowFirst base.toNat value.toNat baseDigit)) := by
  rw [uintToBase, digitLoop_eq hb (lt_base_pow hb value), zero_add, Buffer.turned, lowFirst_length,
    lowFirst]

lemma baseDigits_length_le (hb : 1 < base.toNat) (value : UInt64) :
    (baseDigits base.toNat value.toNat).length ≤ 64 :=
  (baseDigits_length_le_iff hb (by omega)).mpr (lt_base_pow hb value)

/-- `uintToBase` with a buffer of 64 bytes is right but for values of 64 bits in base 2. -/
theorem uintToBase_writes_iff (value : UInt64) (base : UInt32)
    (hbase : base = 2 ∨ base = 10 ∨ base = 16) (mem : ℕ → UInt8) :
    WritesBase value.toNat base.toNat (uintToBase value ⟨mem, 64, true⟩ base) ↔
      ¬(base = 2 ∧ 2 ^ 63 ≤ value.toNat) := by
  have hb : 1 < base.toNat := by rcases hbase with rfl | rfl | rfl <;> decide
  have hlen := baseDigits_length_le hb value
  have hfits : (baseDigits base.toNat value.toNat).length < 64 ↔
      ¬(base = 2 ∧ 2 ^ 63 ≤ value.toNat) := by
    have hlt := value.toNat_lt
    rw [Nat.lt_succ_iff, baseDigits_length_le_iff hb (by omega)]
    rcases hbase with rfl | rfl | rfl
    · rw [show (2 : UInt32).toNat = 2 from rfl]
      simp
    · exact iff_of_true (hlt.trans_le (by decide)) fun h => absurd h.1 (by decide)
    · exact iff_of_true (hlt.trans_le (by decide)) fun h => absurd h.1 (by decide)
  have hs := lowFirst_ne_nil base.toNat value.toNat baseDigit
  have hin := turned_inBounds hs ⟨mem, 64, true⟩
  have hdigits := bytes_turned ⟨mem, 64, true⟩ (lowFirst base.toNat value.toNat baseDigit)
  have hend := turned_end hs ⟨mem, 64, true⟩
  rw [lowFirst_length] at hin hdigits hend
  rw [lowFirst_reverse] at hdigits
  rw [uintToBase_eq hb, ← hfits]
  constructor
  · intro h
    exact (hin.mp h.inBounds).2
  · intro h
    refine ⟨hdigits, hend, ?_, hin.mpr ⟨rfl, h⟩⟩
    rw [UInt32.toNat_ofNat', Nat.mod_eq_of_lt (by omega)]

theorem uintToBase_writes_255 :
    WritesBase 255 16 (uintToBase 255 ⟨fun _ => 0, 64, true⟩ 16) :=
  (uintToBase_writes_iff 255 16 (.inr (.inr rfl)) fun _ => 0).mpr fun h => absurd h.1 (by decide)

/-- The terminator of 64 binary digits is stored behind the buffer. -/
theorem uintToBase_overflows :
    ¬∀ (value : UInt64) (base : UInt32), base = 2 ∨ base = 10 ∨ base = 16 → ∀ mem : ℕ → UInt8,
      WritesBase value.toNat base.toNat (uintToBase value ⟨mem, 64, true⟩ base) := by
  intro h
  have hin := (h (2 ^ 63) 2 (.inl rfl) fun _ => 0).inBounds
  revert hin
  decide +kernel

/-- The characters of the table. -/
def tableDigit (d : ℕ) : UInt8 := "0123456789abcdef".toUTF8.toList.getD d 0

lemma digitTable_natCast (around : ℤ → UInt8) (hd : d < 16) :
    Stdio.digitTable around d = tableDigit d := by
  rw [Stdio.digitTable, if_pos (by omega), Int.toNat_natCast, tableDigit]

lemma lowFirst_digitTable (around : ℤ → UInt8) (hn : 1 < n) (hn' : n ≤ 16) (v : ℕ) :
    lowFirst n v (fun d => Stdio.digitTable around d) = lowFirst n v tableDigit := by
  refine List.map_congr_left fun d hd => digitTable_natCast around ?_
  exact (baseDigits_lt hn (List.mem_reverse.mp hd)).trans_le hn'

/-- `utoa` writes every value in the bases 10 and 16. -/
theorem utoa_writes (around : ℤ → UInt8) (value : UInt64) (base : Int32)
    (hbase : base = 10 ∨ base = 16) (mem : ℕ → UInt8) :
    read (Stdio.utoa around value ⟨mem, 32, true⟩ base).mem 0 32 =
        (baseDigits base.toInt.toNat value.toNat).map tableDigit ∧
      (Stdio.utoa around value ⟨mem, 32, true⟩ base).inBounds = true := by
  have hb : base.toInt64.toUInt64.toNat = base.toInt.toNat ∧ 10 ≤ base.toInt.toNat ∧
      base.toInt.toNat ≤ 16 := by
    rcases hbase with rfl | rfl <;> decide
  rw [Stdio.utoa, hb.1]
  generalize base.toInt.toNat = n at *
  have hlen : (baseDigits n value.toNat).length ≤ 20 :=
    (baseDigits_length_le_iff (by omega) (by omega)).mpr
      (value.toNat_lt.trans_le ((show 2 ^ 64 ≤ 10 ^ 20 by decide).trans
        (Nat.pow_le_pow_left hb.2.1 20)))
  have hs := lowFirst_ne_nil n value.toNat tableDigit
  have hin := turned_inBounds hs ⟨mem, 32, true⟩
  have h0 : 0 ∉ lowFirst n value.toNat tableDigit := by
    intro h
    obtain ⟨d, hd, he⟩ := List.mem_map.mp h
    have hlt := baseDigits_lt (by omega) (List.mem_reverse.mp hd)
    have hne : ∀ d < 16, tableDigit d ≠ 0 := by decide +kernel
    exact hne d (hlt.trans_le hb.2.2) he
  have heq : digitLoop (fun d => Stdio.digitTable around d) n 64 value.toNat 0 ⟨mem, 32, true⟩ =
      ((lowFirst n value.toNat tableDigit).length,
        Buffer.storeAll ⟨mem, 32, true⟩ 0 (lowFirst n value.toNat tableDigit)) := by
    rw [digitLoop_eq (by omega) (lt_base_pow (by omega) value), zero_add, ← lowFirst,
      lowFirst_digitTable around (by omega) hb.2.2, lowFirst_length]
  rw [heq]
  change read (Buffer.turned ⟨mem, 32, true⟩ (lowFirst n value.toNat tableDigit)).mem 0 32 = _ ∧
    (Buffer.turned ⟨mem, 32, true⟩ (lowFirst n value.toNat tableDigit)).inBounds = true
  rw [lowFirst_length] at hin
  refine ⟨?_, hin.mpr ⟨rfl, hlen.trans_lt (show 20 < 32 by decide)⟩⟩
  rw [read_turned hs h0 (by rw [lowFirst_length]; omega), lowFirst_reverse]

lemma digitTable_of_lt (around : ℤ → UInt8) (hd : d < 10) :
    Stdio.digitTable around d = UInt8.ofNat (48 + d) := by
  have htable : ∀ d < 10, tableDigit d = UInt8.ofNat (48 + d) := by decide +kernel
  rw [digitTable_natCast around (by omega), htable d hd]

/-- The decimal representation of a number. -/
def decimal (n : ℤ) : CStr :=
  (if n < 0 then [45] else []) ++ (baseDigits 10 n.natAbs).map fun d => UInt8.ofNat (48 + d)

/-- The string is the decimal representation of `v`, ends within the buffer, and every index into
the table of digits was in range. -/
structure WritesDecimal (v : ℤ) (out : Buffer × Bool) : Prop where
  text : read out.1.mem 0 32 = decimal v
  terminated : out.1.mem (decimal v).length = 0
  inBounds : out.1.inBounds = true
  inTable : out.2 = true
  decodes : Denotes (read out.1.mem 0 32) v

lemma isDecimal_digits (n : ℕ) :
    IsDecimal ((baseDigits 10 n).map fun d => UInt8.ofNat (48 + d)) := by
  refine ⟨?_, fun c hc => ?_⟩
  · rw [Ne, List.map_eq_nil_iff]
    exact baseDigits_ne_nil 10 n
  · obtain ⟨d, hd, rfl⟩ := List.mem_map.mp hc
    have hlt := baseDigits_lt (by decide) hd
    have hbyte : ∀ d < 10, 48 ≤ UInt8.ofNat (48 + d) ∧ UInt8.ofNat (48 + d) ≤ 57 := by decide
    exact hbyte d hlt

lemma decimalValue_digits (n : ℕ) :
    decimalValue ((baseDigits 10 n).map fun d => UInt8.ofNat (48 + d)) = n := by
  have hmap : ((baseDigits 10 n).map fun d => UInt8.ofNat (48 + d)).reverse.map
      (fun c => c.toNat - 48) = (baseDigits 10 n).reverse := by
    rw [← List.map_reverse, List.map_map]
    refine (List.map_congr_left fun d hd => ?_).trans (List.map_id _)
    have hlt := baseDigits_lt (by decide) (List.mem_reverse.mp hd)
    rw [Function.comp_apply, UInt8.toNat_ofNat', Nat.mod_eq_of_lt (by omega)]
    exact Nat.add_sub_cancel_left 48 d
  rw [decimalValue, hmap, ofDigits_baseDigits]

lemma decimal_denotes (n : ℤ) : Denotes (decimal n) n := by
  rw [decimal]
  have hvalue := decimalValue_digits n.natAbs
  split
  · have h := Denotes.minus (isDecimal_digits n.natAbs)
    rw [hvalue] at h
    rwa [show -((n.natAbs : ℕ) : ℤ) = n by omega] at h
  · have h := Denotes.plain (isDecimal_digits n.natAbs)
    rw [hvalue] at h
    rwa [show ((n.natAbs : ℕ) : ℤ) = n by omega] at h

section Itoa
open Stdio

variable {v : Int64} {str : Buffer} {inTable : Bool}

lemma toInt_div_ten (hv : 0 ≤ v.toInt) : (v / 10).toInt = v.toInt / 10 := by
  rw [Int64.toInt_div_of_ne_right v 10 (by decide), show (10 : Int64).toInt = 10 from rfl,
    Int.tdiv_eq_ediv_of_nonneg hv]

/-- The index of a digit. -/
lemma toInt_last_digit (hv : 0 ≤ v.toInt) : (v - v / 10 * 10).toInt = v.toInt % 10 := by
  have hlt := v.toInt_lt
  have hmul : (v / 10 * 10).toInt = v.toInt / 10 * 10 := by
    rw [Int64.toInt_mul, toInt_div_ten hv, show (10 : Int64).toInt = 10 from rfl,
      Int.bmod_eq_of_le (by omega) (by omega)]
  rw [Int64.toInt_sub, hmul, Int.bmod_eq_of_le (by omega) (by omega)]
  omega

/-- For a value that is not negative the loop is the one of the digits. -/
lemma itoaLoop_eq (hv : 0 ≤ v.toInt) :
    itoaLoop around 10 n v p str inTable =
      ((digitLoop (fun d => UInt8.ofNat (48 + d)) 10 n v.toInt.toNat p str).1,
        (digitLoop (fun d => UInt8.ofNat (48 + d)) 10 n v.toInt.toNat p str).2, inTable) := by
  induction n generalizing v p str inTable with
  | zero => rfl
  | succ n ih =>
    have hdiv := toInt_div_ten hv
    have hdigit : (v - v / 10 * 10).toInt = ((v.toInt.toNat % 10 : ℕ) : ℤ) := by
      rw [toInt_last_digit hv]
      omega
    have hzero : v / 10 = 0 ↔ v.toInt.toNat / 10 = 0 := by
      rw [← Int64.toInt_inj, hdiv, Int64.toInt_zero]
      omega
    have hrange : decide (0 ≤ ((v.toInt.toNat % 10 : ℕ) : ℤ) ∧
        ((v.toInt.toNat % 10 : ℕ) : ℤ) < 16) = true := decide_eq_true (by omega)
    have hquotient : (v / 10).toInt.toNat = v.toInt.toNat / 10 := by
      rw [hdiv]
      omega
    rw [itoaLoop, digitLoop, hdigit, hrange, Bool.and_true,
      digitTable_of_lt around (Nat.mod_lt _ (by decide))]
    by_cases hq : v / 10 = 0
    · rw [if_pos hq, if_pos (hzero.mp hq)]
    · rw [if_neg hq, if_neg (mt hzero.mpr hq), ih (by rw [hdiv]; omega), hquotient]

/-- An index outside the table is not forgotten. -/
lemma itoaLoop_inTable_false {base : Int64} :
    (itoaLoop around base n v p str false).2.2 = false := by
  induction n generalizing v p str with
  | zero => rfl
  | succ n ih =>
    rw [itoaLoop, Bool.false_and]
    split
    · rfl
    · exact ih

lemma decimal_reverse (n : ℤ) :
    (decimal n).reverse = lowFirst 10 n.natAbs (fun d => UInt8.ofNat (48 + d)) ++
      if n < 0 then [45] else [] := by
  rw [decimal, List.reverse_append, lowFirst, List.map_reverse]
  split <;> rfl

lemma decimal_ne_nil (n : ℤ) : decimal n ≠ [] := by
  rw [← List.reverse_ne_nil_iff, decimal_reverse]
  exact List.append_ne_nil_of_left_ne_nil (lowFirst_ne_nil _ _ _) _

/-- The value whose digits `itoa` writes. -/
lemma toInt_abs (hv : v ≠ Int64.minValue) :
    (if decide (v < 0 ∧ (10 : Int32) = 10) = true then -v else v).toInt = v.toInt.natAbs := by
  have h1 := v.le_toInt
  have h2 := v.toInt_lt
  have h3 : v.toInt ≠ -2 ^ 63 := by
    rw [← Int64.toInt_minValue]
    exact mt Int64.toInt_inj.mp hv
  have hneg : v < 0 ↔ v.toInt < 0 := Int64.lt_iff_toInt_lt
  split
  · rename_i h
    have hlt := hneg.mp (of_decide_eq_true h).1
    rw [Int64.toInt_neg, Int.bmod_eq_of_le (by omega) (by omega)]
    omega
  · rename_i h
    have hge : ¬v < 0 := fun hlt => h (decide_eq_true ⟨hlt, rfl⟩)
    rw [hneg] at hge
    omega

lemma itoa_eq (hv : v ≠ Int64.minValue) (str : Buffer) :
    Stdio.itoa around v str 10 = (str.turned (decimal v.toInt).reverse, true) := by
  have habs := toInt_abs hv
  have hneg : v < 0 ↔ v.toInt < 0 := Int64.lt_iff_toInt_lt
  have hlt : v.toInt.natAbs < 10 ^ (63 + 1) := by
    have h1 := v.le_toInt
    have h2 := v.toInt_lt
    omega
  rw [Stdio.itoa, show (10 : Int32).toInt64 = 10 from rfl]
  dsimp only
  rw [itoaLoop_eq (by rw [habs]; omega), habs, Int.toNat_natCast,
    digitLoop_eq (by decide) hlt, zero_add, decimal_reverse, ← lowFirst,
    ← lowFirst_length 10 v.toInt.natAbs fun d => UInt8.ofNat (48 + d)]
  generalize lowFirst 10 v.toInt.natAbs (fun d => UInt8.ofNat (48 + d)) = s
  by_cases h : v < 0
  · rw [if_pos (decide_eq_true ⟨h, rfl⟩), if_pos (hneg.mp h), Buffer.turned, List.length_append,
      List.length_singleton, ← Buffer.storeAll_concat, zero_add]
  · have hd : ¬decide (v < 0 ∧ (10 : Int32) = 10) = true := by simpa using h
    rw [if_neg hd, if_neg (mt hneg.mpr h), List.append_nil]
    rfl

lemma decimal_length_le (v : Int64) : (decimal v.toInt).length ≤ 20 := by
  have h1 := v.le_toInt
  have h2 := v.toInt_lt
  have hdigits : (baseDigits 10 v.toInt.natAbs).length ≤ 19 :=
    (baseDigits_length_le_iff (by decide) (by decide)).mpr (by omega)
  rw [decimal, List.length_append, List.length_map]
  have hsign : (if v.toInt < 0 then [45] else ([] : CStr)).length ≤ 1 := by split <;> simp
  omega

lemma zero_notMem_decimal (n : ℤ) : 0 ∉ decimal n := by
  rw [decimal, List.mem_append, not_or]
  refine ⟨?_, fun h => absurd ((isDecimal_digits n.natAbs).2 0 h).1 (by decide)⟩
  split <;> decide

/-- The smallest value is its own negation, and the first digit is looked up before the table. -/
lemma itoa_minValue_inTable (str : Buffer) :
    (Stdio.itoa around Int64.minValue str 10).2 = false := by
  have hneg : (if decide (Int64.minValue < 0 ∧ (10 : Int32) = 10) = true then -Int64.minValue
      else Int64.minValue) = Int64.minValue := by decide
  have hindex : (Int64.minValue - Int64.minValue / 10 * 10).toInt = -8 := by decide
  have hout : decide (0 ≤ (-8 : ℤ) ∧ (-8 : ℤ) < 16) = false := by decide
  have hquotient : ¬Int64.minValue / 10 = 0 := by decide
  rw [Stdio.itoa, show (10 : Int32).toInt64 = 10 from rfl]
  dsimp only
  rw [hneg, itoaLoop, hindex, hout, Bool.and_false, if_neg hquotient, itoaLoop_inTable_false]

lemma itoa_writes (around : ℤ → UInt8) (hv : v ≠ Int64.minValue) (mem : ℕ → UInt8) :
    WritesDecimal v.toInt (Stdio.itoa around v ⟨mem, 32, true⟩ 10) := by
  have hlen := decimal_length_le v
  have hne : (decimal v.toInt).reverse ≠ [] := List.reverse_ne_nil_iff.mpr (decimal_ne_nil _)
  have hend := turned_end hne ⟨mem, 32, true⟩
  have hin := turned_inBounds hne ⟨mem, 32, true⟩
  have hread : read (Buffer.turned ⟨mem, 32, true⟩ (decimal v.toInt).reverse).mem 0 32 =
      decimal v.toInt := by
    rw [read_turned hne _ (by rw [List.length_reverse]; omega), List.reverse_reverse]
    rw [List.mem_reverse]
    exact zero_notMem_decimal v.toInt
  rw [List.length_reverse] at hend hin
  rw [itoa_eq hv]
  refine ⟨hread, hend, hin.mpr ⟨rfl, hlen.trans_lt (show 20 < 32 by decide)⟩, rfl, ?_⟩
  rw [hread]
  exact decimal_denotes v.toInt

/-- `itoa` in base 10 writes every value but the smallest one. -/
theorem itoa_writes_iff (around : ℤ → UInt8) (v : Int64) (mem : ℕ → UInt8) :
    WritesDecimal v.toInt (Stdio.itoa around v ⟨mem, 32, true⟩ 10) ↔ v ≠ Int64.minValue := by
  refine ⟨?_, fun hv => itoa_writes around hv mem⟩
  rintro h rfl
  have hin := h.inTable
  rw [itoa_minValue_inTable] at hin
  cases hin

/-- The digits of `-2 ^ 63` are looked up before the table. -/
theorem itoa_minValue_fails :
    ¬∀ (around : ℤ → UInt8) (v : Int64) (mem : ℕ → UInt8),
      WritesDecimal v.toInt (Stdio.itoa around v ⟨mem, 32, true⟩ 10) := by
  intro h
  have hin := (h (fun _ => 0) Int64.minValue fun _ => 0).inTable
  rw [itoa_minValue_inTable] at hin
  cases hin

lemma itoa_writes_int (value : Int32) (mem : ℕ → UInt8) :
    WritesDecimal value.toInt (Stdio.itoa around value.toInt64 ⟨mem, 32, true⟩ 10) := by
  have hv : value.toInt64 ≠ Int64.minValue := by
    intro h
    have h1 := value.le_toInt
    have h2 := congrArg Int64.toInt h
    rw [Int32.toInt_toInt64, Int64.toInt_minValue] at h2
    omega
  have h := itoa_writes around hv mem
  rwa [Int32.toInt_toInt64] at h

/-- What `"%d"` prints of an `int` is read back by `parse_int_token`. -/
theorem parseIntToken_itoa (around : ℤ → UInt8) (value : Int32) (mem : ℕ → UInt8) (old : ℤ) :
    parseIntToken (some (read (Stdio.itoa around value.toInt64 ⟨mem, 32, true⟩ 10).1.mem 0 32))
      (some old) = (1, some value.toInt) := by
  have h1 := value.le_toInt
  have h2 := value.toInt_lt
  rw [parseIntToken_denotes (itoa_writes_int value mem).decodes,
    wrapInt_of_isInt ⟨by omega, by omega⟩]

end Itoa

end TP2Kernel.Proofs
