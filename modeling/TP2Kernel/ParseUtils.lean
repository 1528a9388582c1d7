import TP2Kernel.State

/-!
# Numbers on the command line

`parse_int_token` of `parse_utils.h`, with which `kill`, `nice`, `block` and `waitpid` read the
pid that they act on.
-/

namespace TP2Kernel

/-- The value of an `int` after arithmetic modulo 2^32. -/
def wrapInt (n : Int) : Int := n.bmod (2 ^ 32)

/-- The loop of `parse_int_token`: `parsed` behind the last digit, or `none` at another
character. A `char` above 127 is negative, and so below `'0'`. -/
def parseIntLoop : CStr → Int → Option Int
  | [], parsed => some parsed
  | c :: cs, parsed =>
    if c < 48 ∨ 57 < c then none
    else parseIntLoop cs (wrapInt (parsed * 10 + ((c.toNat : Int) - 48)))

/-- `parse_int_token`: its result, and what `*value` is behind it. -/
def parseIntToken (token : Option CStr) (value : Option Int) : Int × Option Int :=
  match token with
  | none => (0, value)
  | some token =>
    if token = [] ∨ value = none then (0, value)
    else
      let negative := decide (token.head? = some 45)
      let sign : Int := if negative then -1 else 1
      let digits := if negative then token.tail else token
      if negative ∧ digits = [] then (0, value)
      else match parseIntLoop digits 0 with
        | none => (0, value)
        | some parsed => (1, some (wrapInt (sign * parsed)))

/-- One or more decimal digits. -/
def IsDecimal (ds : CStr) : Prop := ds ≠ [] ∧ ∀ c ∈ ds, 48 ≤ c ∧ c ≤ 57

/-- The number that decimal digits denote. -/
def decimalValue (ds : CStr) : Nat := Nat.ofDigits 10 (ds.reverse.map fun c => c.toNat - 48)

/-- The token is an optional `'-'` and decimal digits, and denotes `n`. -/
inductive Denotes : CStr → Int → Prop
  | plain {ds : CStr} (h : IsDecimal ds) : Denotes ds (decimalValue ds)
  | minus {ds : CStr} (h : IsDecimal ds) : Denotes (45 :: ds) (-(decimalValue ds))

/-- The values of an `int`. -/
def IsInt (n : Int) : Prop := -2147483648 ≤ n ∧ n ≤ 2147483647

instance (n : Int) : Decidable (IsInt n) := inferInstanceAs (Decidable (_ ∧ _))

/-- The token is read as the `int` that it denotes, and refused if it denotes none. -/
structure ReadsInt (token : CStr) (old : Int) : Prop where
  accepts : ∀ n, Denotes token n → IsInt n → parseIntToken (some token) (some old) = (1, some n)
  refuses : (¬∃ n, Denotes token n ∧ IsInt n) →
    parseIntToken (some token) (some old) = (0, some old)

end TP2Kernel
