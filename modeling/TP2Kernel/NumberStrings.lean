import TP2Kernel.Lib.DigitStrings

/-!
# Numbers as strings

`uintToBase` of `userlib.c` and `videoDriver.c`, which are the same function, and `itoa` and
`utoa` of `stdio.c`. A `do` loop makes 64 turns at most, one for each bit of the value.
-/

namespace TP2Kernel
open DigitStrings

/-- The character of a digit in `uintToBase`. -/
def baseDigit (remainder : Nat) : UInt8 :=
  UInt8.ofNat (if remainder < 10 then remainder + 48 else remainder + 65 - 10)

/-- `uintToBase`. -/
def uintToBase (value : UInt64) (buffer : Buffer) (base : UInt32) : UInt32 × Buffer :=
  let (p, buffer) := digitLoop baseDigit base.toNat 64 value.toNat 0 buffer
  let buffer := buffer.store p 0
  (UInt32.ofNat p, reverseLoop p 0 (p - 1) buffer)

namespace Stdio

/-- `"0123456789abcdef"[index]`, with any bytes around the literal. -/
def digitTable (around : Int → UInt8) (index : Int) : UInt8 :=
  if 0 ≤ index ∧ index < 16 then "0123456789abcdef".toUTF8.toList.getD index.toNat 0
  else around index

/-- The `do` loop of `itoa`: `ptr` behind it, the string, and whether every index was one of the
table's digits. -/
def itoaLoop (around : Int → UInt8) (base : Int64) :
    Nat → Int64 → Nat → Buffer → Bool → Nat × Buffer × Bool
  | 0, _, ptr, str, inTable => (ptr, str, inTable)
  | n + 1, value, ptr, str, inTable =>
    let tmpValue := value
    let value := value / base
    let index := (tmpValue - value * base).toInt
    let str := str.store ptr (digitTable around index)
    let inTable := inTable && decide (0 ≤ index ∧ index < 16)
    if value = 0 then (ptr + 1, str, inTable)
    else itoaLoop around base n value (ptr + 1) str inTable

/-- `itoa`. The two stores of a swap are to different bytes, in whichever order they are made. -/
def itoa (around : Int → UInt8) (value : Int64) (str : Buffer) (base : Int32) : Buffer × Bool :=
  let isNegative := decide (value < 0 ∧ base = 10)
  let value := if isNegative then -value else value
  let (ptr, str, inTable) := itoaLoop around base.toInt64 64 value 0 str true
  let (ptr, str) := if isNegative then (ptr + 1, str.store ptr 45) else (ptr, str)
  let str := str.store ptr 0
  (reverseLoop ptr 0 (ptr - 1) str, inTable)

/-- `utoa`. -/
def utoa (around : Int → UInt8) (value : UInt64) (str : Buffer) (base : Int32) : Buffer :=
  let (ptr, str) :=
    digitLoop (fun d => digitTable around d) base.toInt64.toUInt64.toNat 64 value.toNat 0 str
  let str := str.store ptr 0
  reverseLoop ptr 0 (ptr - 1) str

end Stdio

end TP2Kernel
