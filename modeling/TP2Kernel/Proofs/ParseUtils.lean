import TP2Kernel.ParseUtils

/-!
# Numbers on the command line

`parse_int_token` accepts the right grammar. It does not look at the range: the value of a
number that is no `int` is the one that `int` arithmetic leaves.
-/

namespace TP2Kernel.Proofs

variable {token ds cs : CStr} {c : UInt8} {n old parsed : Int}

lemma wrapInt_of_isInt (h : IsInt n) : wrapInt n = n := by
  obtain ⟨h0, h1⟩ := h
  rw [wrapInt, Int.bmod_def]
  split
  · omega
  · omega

lemma wrapInt_mul_add (a b d : Int) : wrapInt (wrapInt a * b + d) = wrapInt (a * b + d) := by
  have h : (a.bmod (2 ^ 32) * b).bmod (2 ^ 32) = (a * b).bmod (2 ^ 32) := Int.bmod_mul_bmod
  rw [wrapInt, wrapInt, wrapInt, ← Int.bmod_add_bmod, h, Int.bmod_add_bmod]

lemma wrapInt_mul (a b : Int) : wrapInt (a * wrapInt b) = wrapInt (a * b) := by
  have h := wrapInt_mul_add b a 0
  rw [add_zero, add_zero] at h
  rw [mul_comm, h, mul_comm]

lemma decimalValue_cons (c : UInt8) (cs : CStr) :
    decimalValue (c :: cs) = (c.toNat - 48) * 10 ^ cs.length + decimalValue cs := by
  rw [decimalValue, List.reverse_cons, List.map_append, List.map_singleton, Nat.ofDigits_append,
    Nat.ofDigits_singleton, List.length_map, List.length_reverse, decimalValue]
  ring

/-- Digits are read by Horner's rule. -/
lemma parseIntLoop_digits (hd : ∀ c ∈ ds, 48 ≤ c ∧ c ≤ 57) (parsed : Int) :
    parseIntLoop ds (wrapInt parsed) =
      some (wrapInt (parsed * 10 ^ ds.length + decimalValue ds)) := by
  induction ds generalizing parsed with
  | nil => simp [parseIntLoop, decimalValue]
  | cons c cs ih =>
    obtain ⟨h0, h9⟩ := hd c List.mem_cons_self
    have hc : 48 ≤ c.toNat := h0
    have hno : ¬(c < 48 ∨ 57 < c) := by
      rw [not_or, UInt8.not_lt, UInt8.not_lt]
      exact ⟨h0, h9⟩
    rw [parseIntLoop, if_neg hno, wrapInt_mul_add,
      ih (fun d hd' => hd d (List.mem_cons_of_mem c hd')), decimalValue_cons]
    congr 2
    push_cast [hc]
    rw [List.length_cons]
    ring

/-- Another character than a digit is refused. -/
lemma parseIntLoop_none (hd : ¬∀ c ∈ ds, 48 ≤ c ∧ c ≤ 57) (parsed : Int) :
    parseIntLoop ds parsed = none := by
  induction ds generalizing parsed with
  | nil => exact absurd (fun c hc => absurd hc List.not_mem_nil) hd
  | cons c cs ih =>
    rw [parseIntLoop]
    split
    · rfl
    · rename_i hc
      rw [not_or, UInt8.not_lt, UInt8.not_lt] at hc
      apply ih
      intro hcs
      apply hd
      intro d hd'
      obtain rfl | hd' := List.mem_cons.mp hd'
      · exact hc
      · exact hcs d hd'

lemma parseIntToken_minus (h : IsDecimal ds) (old : Int) :
    parseIntToken (some (45 :: ds)) (some old) = (1, some (wrapInt (-(decimalValue ds)))) := by
  have hloop := parseIntLoop_digits h.2 0
  rw [wrapInt_of_isInt (by decide)] at hloop
  have hneg := wrapInt_mul (-1) (decimalValue ds)
  rw [neg_one_mul, neg_one_mul] at hneg
  simp [parseIntToken, hloop, h.1, hneg]

lemma parseIntToken_plus (h : IsDecimal ds) (old : Int) :
    parseIntToken (some ds) (some old) = (1, some (wrapInt (decimalValue ds))) := by
  have hloop := parseIntLoop_digits h.2 0
  rw [wrapInt_of_isInt (by decide)] at hloop
  have hneg : ds.head? ≠ some 45 := by
    intro hh
    obtain ⟨h0, -⟩ := h.2 45 (List.mem_of_mem_head? hh)
    exact absurd h0 (by decide)
  have hone := wrapInt_mul 1 (decimalValue ds)
  rw [one_mul, one_mul] at hone
  simp [parseIntToken, hloop, h.1, hneg, hone]

/-- The value of a token that denotes a number is this number in `int` arithmetic. -/
lemma parseIntToken_denotes (h : Denotes token n) (old : Int) :
    parseIntToken (some token) (some old) = (1, some (wrapInt n)) := by
  cases h with
  | plain h => exact parseIntToken_plus h old
  | minus h => exact parseIntToken_minus h old

/-- A token that denotes no number is refused. -/
lemma parseIntToken_other (h : ¬∃ n, Denotes token n) (old : Int) :
    parseIntToken (some token) (some old) = (0, some old) := by
  have hloop : ∀ ds, ds ≠ [] → ¬IsDecimal ds → parseIntLoop ds 0 = none := by
    intro ds hne hds
    exact parseIntLoop_none (fun hd => hds ⟨hne, hd⟩) 0
  cases token with
  | nil => rfl
  | cons c cs =>
    by_cases hc : c = 45
    · subst hc
      by_cases hcs : cs = []
      · simp [parseIntToken, hcs]
      · have hno := hloop cs hcs fun hd => h ⟨_, .minus hd⟩
        simp [parseIntToken, hcs, hno]
    · have hno := hloop (c :: cs) (List.cons_ne_nil c cs) fun hd => h ⟨_, .plain hd⟩
      simp [parseIntToken, hc, hno]

lemma denotes_unique {m : Int} (h : Denotes token n) (h' : Denotes token m) : n = m := by
  have hminus : ∀ {ds}, ¬IsDecimal (45 :: ds) := fun hd =>
    absurd (hd.2 45 List.mem_cons_self).1 (by decide)
  cases h with
  | plain h =>
    cases h' with
    | plain => rfl
    | minus => exact absurd h hminus
  | minus h =>
    cases h' with
    | plain h' => exact absurd h' hminus
    | minus => rfl

/-- `parse_int_token` is right about a token unless the token denotes a number that is no
`int`. -/
theorem parseIntToken_reads (token : CStr) (old : Int) :
    ReadsInt token old ↔ ∀ n, Denotes token n → IsInt n := by
  constructor
  · intro h n hn
    by_contra hint
    have hnone : ¬∃ m, Denotes token m ∧ IsInt m := by
      rintro ⟨m, hm, hi⟩
      exact hint (denotes_unique hn hm ▸ hi)
    have hr := (h.refuses hnone).symm.trans (parseIntToken_denotes hn old)
    cases hr
  · intro h
    refine ⟨fun n hn hi => ?_, fun hno => parseIntToken_other (fun ⟨n, hn⟩ => ?_) old⟩
    · rw [parseIntToken_denotes hn, wrapInt_of_isInt hi]
    · exact hno ⟨n, hn, h n hn⟩

/-- `4294967298` is read as 2. -/
theorem parseIntToken_wraps :
    parseIntToken (some [52, 50, 57, 52, 57, 54, 55, 50, 57, 56]) (some 0) = (1, some 2) ∧
      ¬ReadsInt [52, 50, 57, 52, 57, 54, 55, 50, 57, 56] 0 := by
  have hd : Denotes [52, 50, 57, 52, 57, 54, 55, 50, 57, 56] 4294967298 :=
    .plain ⟨by decide, by decide +kernel⟩
  refine ⟨by decide, fun h => ?_⟩
  have hnone : ¬∃ m, Denotes [52, 50, 57, 52, 57, 54, 55, 50, 57, 56] m ∧ IsInt m := by
    rintro ⟨m, hm, hi⟩
    rw [← denotes_unique hd hm] at hi
    exact absurd hi (by decide)
  exact absurd (h.refuses hnone) (by decide)

end TP2Kernel.Proofs
