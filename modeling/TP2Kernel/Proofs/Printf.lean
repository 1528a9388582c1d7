import TP2Kernel.Printf
import TP2Kernel.Proofs.NumberStrings

/-!
# What `printf` and `sprintf` write

Both write the text that the format describes. `printf` passes it on in parts, where its pieces
find room in the buffer; they do whatever the format is as long as no string argument is longer
than 24 bytes.
-/

namespace TP2Kernel.Proofs
open CString DigitStrings Stdio

variable {e : StackBytes} {extended : Bool} {format rest piece text : CStr} {pieces : List CStr}
  {args args' : List PrintArg} {n : ℕ}

/-- No argument is the number that `itoa` cannot write. -/
def NoMinimum (args : List PrintArg) : Prop := ∀ v, .long v ∈ args → v ≠ Int64.minValue

lemma decimalText_eq (v : ℤ) : decimalText v = decimal v := by
  rw [decimalText, decimal, digitText]
  congr 1
  apply List.map_congr_left
  intro d hd
  have hlt := baseDigits_lt (by norm_num) hd
  exact (digitTable_natCast (fun _ => 0) (by omega)).symm.trans (digitTable_of_lt _ hlt)

lemma signedText_eq {v : Int64} (hv : v ≠ Int64.minValue) :
    signedText e format v = decimalText v.toInt := by
  rw [signedText, (itoa_writes e.around hv _).text, decimalText_eq]

lemma signedText_int (v : Int32) : signedText e format v.toInt64 = decimalText v.toInt := by
  rw [signedText, (itoa_writes_int v _).text, decimalText_eq]

lemma unsignedText_eq {base : Int32} (v : UInt32) (hbase : base = 10 ∨ base = 16) :
    unsignedText e format v base = digitText base.toInt.toNat v.toNat := by
  rw [unsignedText, (utoa_writes e.around v.toUInt64 base hbase _).1, UInt32.toNat_toUInt64]
  rfl

section Conversions

lemma converts_of_conversion (hargs : NoMinimum args)
    (hconv : conversion e extended format args = some (piece, rest, args')) :
    Converts extended format args piece rest args' := by
  cases format with
  | nil => cases hconv
  | cons c format =>
    unfold conversion at hconv
    dsimp only at hconv
    by_cases hint : c = 100 ∨ c = 105
    · rw [if_pos hint] at hconv
      split at hconv
      · cases hconv
        rw [signedText_int]
        exact .int hint
      · cases hconv
    rw [if_neg hint] at hconv
    by_cases hlong : c = 108 ∧ format.head? = some 100
    · rw [if_pos hlong] at hconv
      obtain ⟨rfl, hhead⟩ := hlong
      obtain ⟨f, rfl⟩ : ∃ f, format = 100 :: f := by
        cases format with
        | nil => cases hhead
        | cons d f => exact ⟨f, by rw [Option.some.inj hhead]⟩
      split at hconv
      · next v args =>
        cases hconv
        rw [signedText_eq (hargs v (.head _))]
        exact .long
      · cases hconv
    rw [if_neg hlong] at hconv
    by_cases hunsigned : extended ∧ c = 117
    · rw [if_pos hunsigned] at hconv
      obtain ⟨he, rfl⟩ := hunsigned
      split at hconv
      · cases hconv
        rw [unsignedText_eq _ (Or.inl rfl)]
        exact .unsigned he
      · cases hconv
    rw [if_neg hunsigned] at hconv
    by_cases hhex : extended ∧ c = 120
    · rw [if_pos hhex] at hconv
      obtain ⟨he, rfl⟩ := hhex
      split at hconv
      · cases hconv
        rw [unsignedText_eq _ (Or.inr rfl)]
        exact .hex he
      · cases hconv
    rw [if_neg hhex] at hconv
    by_cases hstring : c = 115
    · rw [if_pos hstring] at hconv
      subst hstring
      split at hconv
      · cases hconv
        exact .string
      · cases hconv
    rw [if_neg hstring] at hconv
    by_cases hchar : c = 99
    · rw [if_pos hchar] at hconv
      subst hchar
      split at hconv
      · cases hconv
        exact .character
      · cases hconv
    rw [if_neg hchar] at hconv
    by_cases hpercent : extended ∧ c = 37
    · rw [if_pos hpercent] at hconv
      obtain ⟨he, rfl⟩ := hpercent
      cases hconv
      exact .percent he
    · rw [if_neg hpercent] at hconv
      cases hconv
      refine .other ?_ hlong
      cases extended <;> simp_all [conversions]

/-- What stands behind a `%` is one conversion. -/
lemma conversion_iff (hargs : NoMinimum args) :
    conversion e extended format args = some (piece, rest, args') ↔
      Converts extended format args piece rest args' := by
  refine ⟨converts_of_conversion hargs, fun h => ?_⟩
  cases h with
  | int hc =>
    unfold conversion
    dsimp only
    rw [if_pos hc, signedText_int]
  | long => simp [conversion, signedText_eq (hargs _ (.head _))]
  | unsigned he =>
    simp [conversion, he, unsignedText_eq _ (Or.inl rfl)]
  | hex he =>
    simp [conversion, he, unsignedText_eq _ (Or.inr rfl)]
  | string => simp [conversion]
  | character => simp [conversion]
  | percent he => simp [conversion, he]
  | @other c f _ hc hl =>
    have hno : ¬(c = 100 ∨ c = 105) ∧ ¬(extended ∧ c = 117) ∧ ¬(extended ∧ c = 120) ∧ c ≠ 115 ∧
        c ≠ 99 ∧ ¬(extended ∧ c = 37) := by
      cases extended <;> simp_all [conversions]
    obtain ⟨h1, h2, h3, h4, h5, h6⟩ := hno
    unfold conversion
    dsimp only
    rw [if_neg h1, if_neg hl, if_neg h2, if_neg h3, if_neg h4, if_neg h5, if_neg h6]

lemma Converts.shrinks (h : Converts extended format args piece rest args') :
    rest.length < format.length ∧ args' ⊆ args := by
  cases h <;> simp

lemma NoMinimum.mono (h : NoMinimum args) (hsub : args' ⊆ args) : NoMinimum args' :=
  fun v hv => h v (hsub hv)

lemma digitText_length_le {base k v : ℕ} (hb : 1 < base) (hk : 0 < k) (hv : v < base ^ k) :
    (digitText base v).length ≤ k := by
  rw [digitText, List.length_map]
  exact (baseDigits_length_le_iff hb hk).mpr hv

/-- A conversion other than that of a string writes 20 bytes at most. -/
lemma Converts.length_le {k : ℕ} (h : Converts extended format args piece rest args')
    (hk : ∀ s, .string (some s) ∈ args → s.length ≤ k) (h20 : 20 ≤ k) : piece.length ≤ k := by
  cases h with
  | @int c _ v _ hc =>
    have hlen := decimal_length_le v.toInt64
    rw [Int32.toInt_toInt64] at hlen
    rw [decimalText_eq]
    omega
  | @long _ v _ =>
    have hlen := decimal_length_le v
    rw [decimalText_eq]
    omega
  | @unsigned _ v _ he =>
    have hlt : v.toNat < 10 ^ 10 := v.toNat_lt.trans (by norm_num)
    have hlen := digitText_length_le (by norm_num) (by norm_num) hlt
    omega
  | @hex _ v _ he =>
    have hlt : v.toNat < 16 ^ 8 := v.toNat_lt.trans_le (by norm_num)
    have hlen := digitText_length_le (by norm_num) (by norm_num) hlt
    omega
  | @string _ s _ =>
    cases s with
    | none => exact Nat.zero_le _
    | some s => exact hk s (.head _)
  | character => exact le_trans (show 1 ≤ 20 by decide) h20
  | percent he => exact le_trans (show 1 ≤ 20 by decide) h20
  | other hc hl => exact Nat.zero_le _

lemma Renders.length_le {k : ℕ} (h : Renders extended format args pieces)
    (hk : ∀ s, .string (some s) ∈ args → s.length ≤ k) (h20 : 20 ≤ k) :
    ∀ piece ∈ pieces, piece.length ≤ k := by
  induction h with
  | nil => simp
  | char hc h ih =>
    exact List.forall_mem_cons.mpr ⟨le_trans (show 1 ≤ 20 by decide) h20, ih hk⟩
  | conversion hc h ih =>
    have hsub := (Converts.shrinks hc).2
    exact List.forall_mem_cons.mpr
      ⟨Converts.length_le hc hk h20, ih fun s hs => hk s (hsub hs)⟩

end Conversions

section Loop

variable {σ : Type} {emit : σ → CStr → σ} {s s' : σ}

lemma formatLoop_of_renders (hargs : NoMinimum args) (h : Renders extended format args pieces)
    (hn : format.length ≤ n) :
    formatLoop e extended emit n format args s = some (pieces.foldl emit s) := by
  induction h generalizing n s with
  | nil => cases n <;> rfl
  | @char c format args pieces hc h ih =>
    rw [List.length_cons] at hn
    obtain ⟨n, rfl⟩ : ∃ m, n = m + 1 := ⟨n - 1, by omega⟩
    rw [formatLoop, if_neg hc, ih hargs (by omega)]
    rfl
  | @conversion format rest args args' piece pieces hc h ih =>
    obtain ⟨hlen, hsub⟩ := Converts.shrinks hc
    rw [List.length_cons] at hn
    obtain ⟨n, rfl⟩ : ∃ m, n = m + 1 := ⟨n - 1, by omega⟩
    rw [formatLoop, if_pos rfl, (conversion_iff hargs).mpr hc]
    exact ih (hargs.mono hsub) (by omega)

lemma renders_of_formatLoop (hargs : NoMinimum args) (hn : format.length ≤ n)
    (h : formatLoop e extended emit n format args s = some s') :
    ∃ pieces, Renders extended format args pieces := by
  induction n generalizing format args s with
  | zero =>
    obtain rfl : format = [] := List.eq_nil_of_length_eq_zero (by omega)
    exact ⟨[], .nil⟩
  | succ n ih =>
    cases format with
    | nil => exact ⟨[], .nil⟩
    | cons c format =>
      rw [List.length_cons] at hn
      rw [formatLoop] at h
      split at h
      · next hc =>
        subst hc
        obtain ⟨⟨piece, rest, args'⟩, hconv, h⟩ := Option.bind_eq_some_iff.mp h
        have hc := (conversion_iff hargs).mp hconv
        obtain ⟨hlen, hsub⟩ := Converts.shrinks hc
        obtain ⟨pieces, hr⟩ := ih (hargs.mono hsub) (by omega) h
        exact ⟨piece :: pieces, .conversion hc hr⟩
      · next hc =>
        obtain ⟨pieces, hr⟩ := ih hargs (by omega) h
        exact ⟨[c] :: pieces, .char hc hr⟩

/-- The loop emits the pieces one behind the other. -/
lemma formatLoop_iff (hargs : NoMinimum args) :
    formatLoop e extended emit format.length format args s = some s' ↔
      ∃ pieces, Renders extended format args pieces ∧ s' = pieces.foldl emit s := by
  constructor
  · intro h
    obtain ⟨pieces, hr⟩ := renders_of_formatLoop hargs le_rfl h
    rw [formatLoop_of_renders hargs hr le_rfl] at h
    exact ⟨pieces, hr, (Option.some.inj h).symm⟩
  · rintro ⟨pieces, hr, rfl⟩
    exact formatLoop_of_renders hargs hr le_rfl

end Loop

lemma storeAll_append (b : Buffer) (i : ℕ) (t u : CStr) :
    b.storeAll i (t ++ u) = (b.storeAll i t).storeAll (i + t.length) u := by
  induction t generalizing b i with
  | nil => rfl
  | cons c t ih =>
    rw [List.cons_append, Buffer.storeAll, Buffer.storeAll, ih, List.length_cons, Nat.add_assoc,
      Nat.add_comm 1]

lemma bytes_storeAll (b : Buffer) (i : ℕ) (t : CStr) :
    bytes (b.storeAll i t).mem 0 (i + t.length) = bytes b.mem 0 i ++ t := by
  rw [Buffer.storeAll_mem, bytes_append, Nat.zero_add, bytes_put]
  congr 1
  exact bytes_congr fun x _ hx => put_of_notMem (by omega)

section Printing

variable {s s' : Printf}

/-- What `printf` has written, and what stands in its buffer. -/
def printed (s : Printf) : CStr := s.written.flatten ++ bytes s.buffer.mem 0 s.ptr

lemma printed_put (s : Printf) (t : CStr) : printed (s.put t) = printed s ++ t := by
  rw [printed, printed, Printf.put, bytes_storeAll, List.append_assoc]

lemma printed_flush (s : Printf) : printed s.flush = printed s := by
  simp [printed, Printf.flush, bytes]

lemma emit_fields (s : Printf) (t : CStr) : printed (s.emit t) = printed s ++ t ∧
    (s.emit t).count = s.count + .ofNat t.length ∧
    (s.emit t).buffer = s.buffer.storeAll s.ptr t := by
  rw [Printf.emit]
  split
  · exact ⟨(printed_flush _).trans (printed_put s t), rfl, rfl⟩
  · exact ⟨printed_put s t, rfl, rfl⟩

lemma emit_ptr (s : Printf) (t : CStr) :
    (s.emit t).ptr = if 1000 < s.ptr + t.length then 0 else s.ptr + t.length := by
  rw [Printf.emit]
  split
  · next h => exact (if_pos h).symm
  · next h => exact (if_neg h).symm

/-- What stands in the variables behind the loop. -/
lemma foldl_emit (pieces : List CStr) (s : Printf) :
    printed (pieces.foldl Printf.emit s) = printed s ++ pieces.flatten ∧
      (pieces.foldl Printf.emit s).count = s.count + .ofNat pieces.flatten.length := by
  induction pieces generalizing s with
  | nil => simp
  | cons t pieces ih =>
    obtain ⟨h1, h2⟩ := ih (s.emit t)
    obtain ⟨h3, h4, -⟩ := emit_fields s t
    rw [List.foldl_cons, List.flatten_cons, List.length_append, Int32.ofNat_add]
    exact ⟨by rw [h1, h3, List.append_assoc], by rw [h2, h4, Int32.add_assoc]⟩

lemma finish_fields (s : Printf) : s.finish.written.flatten = printed s ∧
    s.finish.count = s.count ∧ s.finish.buffer = s.buffer := by
  rw [Printf.finish]
  split
  · exact ⟨by simp [Printf.flush, printed], rfl, rfl⟩
  · next h =>
    obtain hp : s.ptr = 0 := by omega
    exact ⟨by simp [printed, hp, bytes], rfl, rfl⟩

/-- No piece that has been written is empty. -/
def NoEmptyPiece (s : Printf) : Prop := ∀ w ∈ s.written, w ≠ []

lemma NoEmptyPiece.flush (h : NoEmptyPiece s) (hp : 0 < s.ptr) : NoEmptyPiece s.flush := by
  intro w hw
  rw [Printf.flush, List.mem_append, List.mem_singleton] at hw
  rcases hw with hw | rfl
  · exact h w hw
  · intro hnil
    have hlen := congrArg List.length hnil
    rw [bytes_length] at hlen
    exact hp.ne' hlen

lemma NoEmptyPiece.emit (h : NoEmptyPiece s) (t : CStr) : NoEmptyPiece (s.emit t) := by
  have hput : NoEmptyPiece (s.put t) := h
  rw [Printf.emit]
  split
  · exact hput.flush (by omega)
  · exact hput

lemma NoEmptyPiece.finish (h : NoEmptyPiece s) : NoEmptyPiece s.finish := by
  rw [Printf.finish]
  split
  · next hp => exact h.flush hp
  · exact h

lemma NoEmptyPiece.foldl (h : NoEmptyPiece s) (pieces : List CStr) :
    NoEmptyPiece (pieces.foldl Printf.emit s) := by
  induction pieces generalizing s with
  | nil => exact h
  | cons t pieces ih => exact ih (h.emit t)

lemma storeAll_fits {b : Buffer} {i : ℕ} {t : CStr} (hb : b.inBounds = true) :
    (b.storeAll i t).inBounds = true ↔ t = [] ∨ i + t.length ≤ b.size := by
  by_cases ht : t = []
  · subst ht
    exact iff_of_true hb (Or.inl rfl)
  · rw [Buffer.storeAll_inBounds ht]
    tauto

lemma foldl_emit_out (hs : s.buffer.inBounds = false) (pieces : List CStr) :
    (pieces.foldl Printf.emit s).buffer.inBounds = false := by
  induction pieces generalizing s with
  | nil => exact hs
  | cons t pieces ih =>
    apply ih
    rw [(emit_fields s t).2.2, ← Bool.not_eq_true]
    by_cases ht : t = []
    · rw [ht]
      exact Bool.not_eq_true _ ▸ hs
    · rw [Buffer.storeAll_inBounds ht, hs]
      simp

/-- The buffer of `printf` at the head of the loop. -/
structure BufferRoom (s : Printf) : Prop where
  size : s.buffer.size = 1024
  ptr : s.ptr ≤ 1000
  inBounds : s.buffer.inBounds = true

lemma BufferRoom.emit (h : BufferRoom s) {t : CStr} (ht : s.ptr + t.length ≤ 1024) :
    BufferRoom (s.emit t) := by
  refine ⟨?_, ?_, ?_⟩
  · rw [(emit_fields s t).2.2, Buffer.storeAll_size, h.size]
  · rw [emit_ptr]
    split
    · exact Nat.zero_le _
    · omega
  · rw [(emit_fields s t).2.2, storeAll_fits h.inBounds, h.size]
    exact Or.inr ht

/-- The buffer holds exactly those pieces that find room in it. -/
lemma foldl_emit_inBounds (h : BufferRoom s) :
    (pieces.foldl Printf.emit s).buffer.inBounds = true ↔ Room s.ptr pieces := by
  induction pieces generalizing s with
  | nil => exact iff_of_true h.inBounds trivial
  | cons t pieces ih =>
    rw [List.foldl_cons, Room, ← emit_ptr]
    by_cases ht : s.ptr + t.length ≤ 1024
    · rw [ih (h.emit ht)]
      exact (and_iff_right ht).symm
    · refine iff_of_false ?_ fun hr => ht hr.1
      have hout : (s.emit t).buffer.inBounds = false := by
        rw [(emit_fields s t).2.2, ← Bool.not_eq_true, storeAll_fits h.inBounds, h.size]
        rintro (rfl | hle)
        · exact ht (h.ptr.trans (by decide))
        · exact ht hle
      rw [foldl_emit_out hout]
      simp

/-- What `printf` leaves of the pieces. -/
structure Prints (pieces : List CStr) (s : Printf) : Prop where
  text : s.written.flatten = pieces.flatten
  count : s.count = .ofNat pieces.flatten.length
  filled : ∀ w ∈ s.written, w ≠ []
  inBounds : s.buffer.inBounds = true ↔ Room 0 pieces

lemma prints_foldl (mem : ℕ → UInt8) (pieces : List CStr) :
    Prints pieces (pieces.foldl Printf.emit ⟨⟨mem, 1024, true⟩, 0, 0, []⟩).finish := by
  let start : Printf := ⟨⟨mem, 1024, true⟩, 0, 0, []⟩
  obtain ⟨h1, h2⟩ := foldl_emit pieces start
  obtain ⟨h3, h4, h5⟩ := finish_fields (pieces.foldl Printf.emit start)
  have hfilled : NoEmptyPiece start := fun w hw => by cases hw
  refine ⟨?_, ?_, (hfilled.foldl pieces).finish, ?_⟩
  · rw [h3, h1]
    rfl
  · rw [h4, h2]
    exact Int32.zero_add _
  · rw [h5]
    exact foldl_emit_inBounds ⟨rfl, Nat.zero_le _, rfl⟩

lemma printf_iff {mem : ℕ → UInt8} (hargs : NoMinimum args) :
    printf e mem format args = some s ↔ ∃ pieces, Renders true format args pieces ∧
      s = (pieces.foldl Printf.emit ⟨⟨mem, 1024, true⟩, 0, 0, []⟩).finish := by
  rw [printf, Option.map_eq_some_iff]
  constructor
  · rintro ⟨s', hs', rfl⟩
    obtain ⟨pieces, hr, rfl⟩ := (formatLoop_iff hargs).mp hs'
    exact ⟨pieces, hr, rfl⟩
  · rintro ⟨pieces, hr, rfl⟩
    exact ⟨_, (formatLoop_iff hargs).mpr ⟨pieces, hr, rfl⟩, rfl⟩

/-- `printf` writes inside its buffer what its format describes, in parts that are not empty, and
returns its length, exactly where the pieces find room. A format whose arguments do not fit, or
that ends in `%`, describes nothing. -/
theorem printf_renders_iff (hargs : NoMinimum args) (e : StackBytes) (mem : ℕ → UInt8)
    (format text : CStr) :
    (∃ s, printf e mem format args = some s ∧ s.buffer.inBounds = true ∧
      s.written.flatten = text ∧ s.count = .ofNat text.length ∧ ∀ w ∈ s.written, w ≠ []) ↔
    ∃ pieces, Renders true format args pieces ∧ Room 0 pieces ∧ pieces.flatten = text := by
  constructor
  · rintro ⟨s, hs, hin, rfl, -, -⟩
    obtain ⟨pieces, hr, rfl⟩ := (printf_iff hargs).mp hs
    have hp := prints_foldl mem pieces
    exact ⟨pieces, hr, hp.inBounds.mp hin, hp.text.symm⟩
  · rintro ⟨pieces, hr, hroom, rfl⟩
    have hp := prints_foldl mem pieces
    exact ⟨_, (printf_iff hargs).mpr ⟨pieces, hr, rfl⟩, hp.inBounds.mpr hroom, hp.text, hp.count,
      hp.filled⟩

/-- `"%s%%"` with the string `"ab"`. -/
theorem printf_renders_sample :
    ∃ s, printf ⟨fun _ => 0, fun _ _ => 0⟩ (fun _ => 0) [37, 115, 37, 37]
        [.string (some [97, 98])] = some s ∧ s.buffer.inBounds = true ∧
      s.written.flatten = [97, 98, 37] ∧ s.count = 3 ∧ ∀ w ∈ s.written, w ≠ [] := by
  have hargs : NoMinimum [.string (some [97, 98])] := fun v hv => by simp at hv
  exact (printf_renders_iff hargs _ _ _ [97, 98, 37]).mpr
    ⟨[[97, 98], [37]], .conversion .string (.conversion (.percent rfl) .nil),
      ⟨by decide, by decide, trivial⟩, rfl⟩

/-- Plain characters are pieces of their own. -/
lemma renders_plain {l : CStr} (hl : ∀ c ∈ l, c ≠ 37) (h : Renders extended format args pieces) :
    Renders extended (l ++ format) args (l.map ([·]) ++ pieces) := by
  induction l with
  | nil => exact h
  | cons c l ih => exact .char (hl c (.head _)) (ih fun d hd => hl d (.tail _ hd))

lemma room_plain {l : CStr} (h : n + l.length ≤ 1000) :
    Room n (l.map ([·]) ++ pieces) ↔ Room (n + l.length) pieces := by
  induction l generalizing n with
  | nil => rfl
  | cons c l ih =>
    rw [List.length_cons] at h
    have hone : [c].length = 1 := rfl
    rw [List.map_cons, List.cons_append, Room, hone, if_neg (by omega), ih (by omega),
      List.length_cons, Nat.add_assoc, Nat.add_comm 1]
    exact and_iff_right (by omega)

lemma room_of_length_le (h : ∀ piece ∈ pieces, piece.length ≤ 24) (hn : n ≤ 1000) :
    Room n pieces := by
  induction pieces generalizing n with
  | nil => trivial
  | cons piece pieces ih =>
    obtain ⟨h1, h2⟩ := List.forall_mem_cons.mp h
    refine ⟨by omega, ih h2 ?_⟩
    split
    · exact Nat.zero_le _
    · omega

/-- A string of more than 24 bytes behind a thousand plain characters finds no room. -/
lemma printf_overruns {l t : CStr} (hl : ∀ c ∈ l, c ≠ 37) (hlen : l.length = 1000)
    (ht : 24 < t.length) (e : StackBytes) (mem : ℕ → UInt8) :
    ∃ s, printf e mem (l ++ [37, 115]) [.string (some t)] = some s ∧
      s.buffer.inBounds = false := by
  have hargs : NoMinimum [.string (some t)] := fun v hv => by simp at hv
  have hr : Renders true (l ++ [37, 115]) [.string (some t)] (l.map ([·]) ++ [t]) :=
    renders_plain hl (.conversion .string .nil)
  refine ⟨_, (printf_iff hargs).mpr ⟨_, hr, rfl⟩, ?_⟩
  rw [← Bool.not_eq_true, (prints_foldl mem _).inBounds, room_plain (by omega)]
  rintro ⟨hroom, -⟩
  omega

/-- The buffer of `printf` holds whatever the format is exactly as long as no string argument is
longer than 24 bytes. -/
theorem printf_inBounds_iff (k : ℕ) :
    (∀ e mem format args s, NoMinimum args → (∀ t, .string (some t) ∈ args → t.length ≤ k) →
      printf e mem format args = some s → s.buffer.inBounds = true) ↔ k ≤ 24 := by
  constructor
  · intro h
    by_contra hk
    have hplain : ∀ c ∈ List.replicate 1000 (97 : UInt8), c ≠ 37 := by
      intro c hc
      rw [List.eq_of_mem_replicate hc]
      decide
    have hlong : (List.replicate 25 (98 : UInt8)).length = 25 := List.length_replicate
    have hlt : 24 < (List.replicate 25 (98 : UInt8)).length := hlong.symm ▸ Nat.lt_succ_self 24
    let e : StackBytes := ⟨fun _ => 0, fun _ _ => 0⟩
    obtain ⟨s, hs, hfalse⟩ := printf_overruns hplain List.length_replicate hlt e fun _ => 0
    have htrue := h _ _ _ _ s (fun v hv => by simp at hv) (fun t ht => ?_) hs
    · rw [htrue] at hfalse
      cases hfalse
    · obtain rfl : t = List.replicate 25 98 := by simpa using ht
      omega
  · intro hk e mem format args s hargs hstrings hprintf
    obtain ⟨pieces, hr, rfl⟩ := (printf_iff hargs).mp hprintf
    rw [(prints_foldl mem pieces).inBounds]
    have h24 : ∀ t, .string (some t) ∈ args → t.length ≤ 24 := fun t ht => (hstrings t ht).trans hk
    exact room_of_length_le (Renders.length_le hr h24 (by decide)) (Nat.zero_le _)

end Printing

section Storing

variable {str : Buffer}

lemma foldl_sprintfEmit (pieces : List CStr) (b : Buffer) (i : ℕ) :
    pieces.foldl sprintfEmit (b, i) =
      (b.storeAll i pieces.flatten, i + pieces.flatten.length) := by
  induction pieces generalizing b i with
  | nil => rfl
  | cons t pieces ih =>
    rw [List.foldl_cons, sprintfEmit, ih, List.flatten_cons, storeAll_append, List.length_append,
      Nat.add_assoc]

/-- What `sprintf` has stored of a text. -/
structure StoresText (str : Buffer) (text : CStr) (out : Buffer × Int32) : Prop where
  stored : bytes out.1.mem 0 text.length = text
  terminated : out.1.mem text.length = 0
  count : out.2 = .ofNat text.length
  inBounds : out.1.inBounds = true ↔ str.inBounds = true ∧ text.length < str.size

lemma storesText (str : Buffer) (text : CStr) :
    StoresText str text ((str.storeAll 0 text).store text.length 0, .ofNat text.length) := by
  refine ⟨?_, Function.update_self _ _ _, rfl, ?_⟩
  · have h : bytes (str.storeAll 0 text).mem 0 text.length = text := by
      rw [Buffer.storeAll_mem, bytes_put]
    refine (bytes_congr fun x _ hx => ?_).trans h
    exact Function.update_of_ne (by omega) _ _
  · rw [Buffer.store_inBounds, Buffer.storeAll_size]
    by_cases hs : str.inBounds = true
    · rw [storeAll_fits hs]
      have : text = [] ∨ 0 < text.length := by
        cases text
        · exact Or.inl rfl
        · exact Or.inr (Nat.succ_pos _)
      constructor
      · exact fun h => ⟨hs, h.2⟩
      · exact fun h => ⟨Or.inr (by omega), h.2⟩
    · refine iff_of_false (fun h => hs ?_) (fun h => hs h.1)
      by_cases ht : text = []
      · rw [ht] at h
        exact h.1
      · exact ((Buffer.storeAll_inBounds ht).mp h.1).1

/-- `sprintf` stores what its format describes, with the conversions that it knows. -/
lemma sprintf_iff {out : Buffer × Int32} (hargs : NoMinimum args) :
    sprintf e str format args = some out ↔ ∃ pieces, Renders false format args pieces ∧
      out = ((str.storeAll 0 pieces.flatten).store pieces.flatten.length 0,
        .ofNat pieces.flatten.length) := by
  rw [sprintf, Option.map_eq_some_iff]
  constructor
  · rintro ⟨s, hs, rfl⟩
    obtain ⟨pieces, hr, rfl⟩ := (formatLoop_iff hargs).mp hs
    rw [foldl_sprintfEmit, Nat.zero_add]
    exact ⟨pieces, hr, rfl⟩
  · rintro ⟨pieces, hr, rfl⟩
    refine ⟨_, (formatLoop_iff hargs).mpr ⟨pieces, hr, rfl⟩, ?_⟩
    rw [foldl_sprintfEmit, Nat.zero_add]

/-- None of the conversions that only `printf` knows stands in the format. -/
def Shared (format : CStr) : Prop :=
  format.IsChain fun c d => ¬(c = 37 ∧ (d = 117 ∨ d = 120 ∨ d = 37))

lemma Converts.shared {extended' : Bool} (hf : Shared (37 :: format))
    (h : Converts extended format args piece rest args') :
    Converts extended' format args piece rest args' := by
  cases format with
  | nil => cases h
  | cons c format =>
    have hno : ¬(c = 117 ∨ c = 120 ∨ c = 37) := fun hc => (List.isChain_cons_cons.mp hf).1 ⟨rfl, hc⟩
    cases h with
    | int hc => exact .int hc
    | long => exact .long
    | unsigned he => exact absurd (Or.inl rfl) hno
    | hex he => exact absurd (Or.inr (Or.inl rfl)) hno
    | string => exact .string
    | character => exact .character
    | percent he => exact absurd (Or.inr (Or.inr rfl)) hno
    | other hc hl =>
      refine .other ?_ hl
      cases extended <;> cases extended' <;> simp_all [conversions]

lemma Shared.tail {c : UInt8} (hf : Shared (c :: format)) : Shared format := by
  cases format with
  | nil => exact .nil
  | cons d format => exact (List.isChain_cons_cons.mp hf).2

lemma Converts.rest_shared (hf : Shared format)
    (h : Converts extended format args piece rest args') : Shared rest := by
  cases h with
  | long => exact hf.tail.tail
  | _ => exact hf.tail

lemma Renders.shared {extended' : Bool} (hf : Shared format)
    (h : Renders extended format args pieces) : Renders extended' format args pieces := by
  induction h with
  | nil => exact .nil
  | char hc h ih => exact .char hc (ih hf.tail)
  | conversion hc h ih =>
    exact .conversion (Converts.shared hf hc) (ih (Converts.rest_shared hf.tail hc))

/-- On the conversions they share, `sprintf` stores a text exactly where `printf` writes one, and
where the buffer of `printf` holds it is the same text with the same result. -/
theorem sprintf_agrees (hf : Shared format) (hargs : NoMinimum args) (e : StackBytes)
    (mem : ℕ → UInt8) (str : Buffer) :
    ((∃ out, sprintf e str format args = some out) ↔ ∃ s, printf e mem format args = some s) ∧
    ∀ out s, sprintf e str format args = some out → printf e mem format args = some s →
      s.buffer.inBounds = true → StoresText str s.written.flatten out ∧ out.2 = s.count := by
  refine ⟨⟨?_, ?_⟩, fun out s hout hs _ => ?_⟩
  · rintro ⟨out, hout⟩
    obtain ⟨pieces, hr, -⟩ := (sprintf_iff hargs).mp hout
    exact ⟨_, (printf_iff hargs).mpr ⟨pieces, Renders.shared hf hr, rfl⟩⟩
  · rintro ⟨s, hs⟩
    obtain ⟨pieces, hr, -⟩ := (printf_iff hargs).mp hs
    exact ⟨_, (sprintf_iff hargs).mpr ⟨pieces, Renders.shared hf hr, rfl⟩⟩
  · obtain ⟨pieces, hr, rfl⟩ := (sprintf_iff hargs).mp hout
    have hprintf : printf e mem format args = some _ :=
      (printf_iff hargs).mpr ⟨pieces, Renders.shared hf hr, rfl⟩
    obtain rfl := Option.some.inj (hs.symm.trans hprintf)
    have hp := prints_foldl mem pieces
    rw [hp.text, hp.count]
    exact ⟨storesText str pieces.flatten, rfl⟩

/-- `"c%s"` with the string `"ab"`. -/
theorem sprintf_agrees_sample : ∃ out s,
    sprintf ⟨fun _ => 0, fun _ _ => 0⟩ ⟨fun _ => 7, 4, true⟩ [99, 37, 115]
      [.string (some [97, 98])] = some out ∧
    printf ⟨fun _ => 0, fun _ _ => 0⟩ (fun _ => 0) [99, 37, 115]
      [.string (some [97, 98])] = some s ∧
    StoresText ⟨fun _ => 7, 4, true⟩ [99, 97, 98] out ∧ out.2 = s.count := by
  have hargs : NoMinimum [.string (some [97, 98])] := fun v hv => by simp at hv
  have hf : Shared [99, 37, 115] := by simp [Shared]
  obtain ⟨⟨-, hstores⟩, hagree⟩ :=
    sprintf_agrees hf hargs ⟨fun _ => 0, fun _ _ => 0⟩ (fun _ => 0) ⟨fun _ => 7, 4, true⟩
  obtain ⟨out, hout⟩ := hstores ⟨_, rfl⟩
  exact ⟨out, _, hout, rfl, hagree out _ hout rfl rfl⟩

end Storing

end TP2Kernel.Proofs
