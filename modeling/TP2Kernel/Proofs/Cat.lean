import TP2Kernel.Cat

/-!
# What reaches the pipe

`cat_main` asks to write pieces that together are its input, whatever the sizes of the reads. It
does not ask for what a write has left over.
-/

namespace TP2Kernel.Proofs
open CString Function CatFiles

variable {e : Transfers} {buf : Nat → UInt8} {w : CatFiles} {k n i j s used : Nat}
  {line cs held input : List UInt8} {ps qs : List (List UInt8)}

lemma splitLines_flatten (line cs : List UInt8) :
    (splitLines line cs).1.flatten ++ (splitLines line cs).2 = line ++ cs := by
  induction cs generalizing line with
  | nil => simp [splitLines]
  | cons c cs ih =>
    rw [splitLines]
    split
    · rw [List.flatten_cons, List.append_assoc, ih [], List.nil_append, List.append_assoc,
        List.singleton_append]
    · rw [ih, List.append_assoc, List.singleton_append]

lemma splitLines_rest_length (line cs : List UInt8) :
    (splitLines line cs).2.length ≤ line.length + cs.length := by
  have h := congrArg List.length (splitLines_flatten line cs)
  rw [List.length_append, List.length_append] at h
  omega

/-- Several writes. -/
def writeAll (e : Transfers) (w : CatFiles) (ps : List (List UInt8)) : CatFiles :=
  ps.foldl (sysWriteFd e) w

lemma writeAll_append (w : CatFiles) (ps qs : List (List UInt8)) :
    writeAll e w (ps ++ qs) = writeAll e (writeAll e w ps) qs := List.foldl_append

@[simp] lemma writeAll_input (w : CatFiles) (ps : List (List UInt8)) :
    (writeAll e w ps).input = w.input := by
  induction ps generalizing w with
  | nil => rfl
  | cons p ps ih => exact ih (w.sysWriteFd e p)

@[simp] lemma writeAll_reads (w : CatFiles) (ps : List (List UInt8)) :
    (writeAll e w ps).reads = w.reads := by
  induction ps generalizing w with
  | nil => rfl
  | cons p ps ih => exact ih (w.sysWriteFd e p)

/-- The scan writes the complete lines and stops where the rest begins. -/
lemma scanLines_eq (e : Transfers) (buf : Nat → UInt8) (n : Nat) (hs : s ≤ i) (w : CatFiles) :
    (scanLines e buf n i s w).1 =
        writeAll e w (splitLines (bytes buf s (i - s)) (bytes buf i n)).1 ∧
      (splitLines (bytes buf s (i - s)) (bytes buf i n)).2 =
        bytes buf (scanLines e buf n i s w).2 (i + n - (scanLines e buf n i s w).2) ∧
      s ≤ (scanLines e buf n i s w).2 ∧ (scanLines e buf n i s w).2 ≤ i + n := by
  induction n generalizing i s w with
  | zero => exact ⟨rfl, rfl, le_refl s, hs⟩
  | succ n ih =>
    have hline : bytes buf s (i - s) ++ [buf i] = bytes buf s (i + 1 - s) := by
      rw [show i + 1 - s = i - s + 1 by omega, bytes_append, Nat.add_sub_cancel' hs]
      rfl
    have hend : i + (n + 1) = i + 1 + n := by omega
    rw [scanLines, bytes, splitLines, hend]
    by_cases hc : buf i = 10
    · obtain ⟨h1, h2, h3, h4⟩ := ih (le_refl (i + 1))
        (w.sysWriteFd e (bytes buf s (i - s + 1)))
      rw [Nat.sub_self] at h1 h2
      rw [if_pos hc, if_pos hc, hline]
      dsimp only
      refine ⟨?_, h2, by omega, h4⟩
      rw [h1, show i + 1 - s = i - s + 1 by omega]
      rfl
    · obtain ⟨h1, h2, h3, h4⟩ := ih (show s ≤ i + 1 by omega) w
      rw [if_neg hc, if_neg hc, hline]
      exact ⟨h1, h2, h3, h4⟩

/-- Moving down reads no cell that it has written before. -/
lemma moveDown_apply (hs : 0 < s) (x : Nat) :
    moveDown s n j buf x = if j ≤ x ∧ x < j + n then buf (s + x) else buf x := by
  induction n generalizing j buf with
  | zero =>
    rw [moveDown, if_neg (by omega)]
  | succ n ih =>
    rw [moveDown, ih]
    by_cases hx : x = j
    · rw [if_neg (by omega), if_pos (by omega), hx, update_self]
    by_cases hj : j + 1 ≤ x ∧ x < j + 1 + n
    · rw [if_pos hj, if_pos (by omega), update_of_ne (by omega)]
    · rw [if_neg hj, if_neg (by omega), update_of_ne hx]

lemma bytes_moveDown (hs : 0 < s) : bytes (moveDown s n 0 buf) 0 n = bytes buf s n := by
  apply List.ext_getElem
  · rw [bytes_length, bytes_length]
  · intro x hx _
    rw [bytes_length] at hx
    rw [bytes_getElem, bytes_getElem, moveDown_apply hs, if_pos (by omega), zero_add]

lemma readSize_pos (h : 0 < n) : 0 < readSize e k n := by
  rw [readSize]
  omega

lemma readSize_le (e : Transfers) (k n : Nat) : readSize e k n ≤ n := Nat.min_le_left _ _

/-- The pieces are the input, in order. -/
lemma cutPieces_flatten {fuel : Nat} (hf : input.length < fuel) (hh : held.length < catBufSize) :
    (cutPieces e fuel k held input).flatten = held ++ input := by
  induction fuel generalizing k held input with
  | zero => omega
  | succ fuel ih =>
    have hsize : 0 < readSize e k (catBufSize - held.length) := readSize_pos (by omega)
    have hle := readSize_le e k (catBufSize - held.length)
    rw [cutPieces]
    dsimp only
    generalize readSize e k (catBufSize - held.length) = size at hsize hle ⊢
    have hsplit := splitLines_flatten [] (held ++ input.take size)
    by_cases hend : input.take size = []
    · have hinput : input = [] := by
        rw [List.take_eq_nil_iff] at hend
        exact hend.resolve_left (by omega)
      rw [if_pos hend, hinput]
      by_cases hnil : held = []
      · simp [hnil]
      · simp [hnil]
    · have hne : input ≠ [] := by
        rintro rfl
        exact hend List.take_nil
      have hlt : (input.drop size).length < fuel := by
        have hpos := List.length_pos_of_ne_nil hne
        rw [List.length_drop]
        omega
      have hgot : (input.take size).length ≤ size := List.length_take_le _ _
      have hrest := splitLines_rest_length [] (held ++ input.take size)
      have hall : held ++ input = (splitLines [] (held ++ input.take size)).1.flatten ++
          (splitLines [] (held ++ input.take size)).2 ++ input.drop size := by
        rw [hsplit, List.nil_append, List.append_assoc, List.take_append_drop]
      rw [if_neg hend, hall]
      split
      · rw [List.flatten_append, List.flatten_cons, ih hlt (by decide), List.nil_append,
          List.append_assoc]
      · rename_i hfull
        rw [List.length_nil, List.length_append] at hrest
        rw [List.flatten_append, ih hlt (by omega), List.append_assoc]

/-- What is written depends on what was written before. -/
lemma writeAll_output {w w' : CatFiles} (ho : w.output = w'.output) (hw : w.writes = w'.writes)
    (ps : List (List UInt8)) : (writeAll e w ps).output = (writeAll e w' ps).output := by
  induction ps generalizing w w' with
  | nil => exact ho
  | cons p ps ih =>
    apply ih
    · rw [sysWriteFd, sysWriteFd, ho, hw]
    · rw [sysWriteFd, sysWriteFd, hw]

lemma bytes_put_behind (buf : Nat → UInt8) (used : Nat) (got : List UInt8) :
    bytes (put buf used got) 0 (used + got.length) = bytes buf 0 used ++ got := by
  rw [bytes_append, zero_add, bytes_put,
    bytes_congr fun x _ hx => put_of_notMem (Or.inl (by omega))]

/-- What the buffer holds behind one turn of the loop is the rest of the last line. -/
lemma bytes_rest (buf : Nat → UInt8) (s used : Nat) :
    bytes (if 0 < s then (moveDown s (used - s) 0 buf, used - s) else (buf, used)).1 0
        (if 0 < s then (moveDown s (used - s) 0 buf, used - s) else (buf, used)).2 =
      bytes buf s (used - s) := by
  by_cases h0 : 0 < s
  · rw [if_pos h0]
    exact bytes_moveDown h0
  · rw [if_neg h0, show s = 0 by omega]
    rfl

/-- `cat` asks to write the pieces, and comes to the end of its input. -/
lemma catLoop_output (buf : Nat → UInt8) {fuel : Nat} (hf : w.input.length < fuel)
    (hu : used < catBufSize) :
    ∃ w', catLoop e fuel buf used w = some w' ∧ w'.output =
      (writeAll e w (cutPieces e fuel w.reads (bytes buf 0 used) w.input)).output := by
  induction fuel generalizing buf used w with
  | zero => omega
  | succ fuel ih =>
    rw [catLoop, cutPieces, sysReadFd, bytes_length]
    dsimp only
    have hsize : 0 < readSize e w.reads (catBufSize - used) := readSize_pos (by omega)
    have hle := readSize_le e w.reads (catBufSize - used)
    generalize readSize e w.reads (catBufSize - used) = size at hsize hle ⊢
    generalize hw1 : ({ w with input := w.input.drop size, reads := w.reads + 1 } : CatFiles) = w1
    have ho1 : w1.output = w.output := by rw [← hw1]
    have hk1 : w1.writes = w.writes := by rw [← hw1]
    by_cases hend : w.input.take size = []
    · rw [if_pos hend, if_pos hend]
      refine ⟨_, rfl, ?_⟩
      by_cases h0 : 0 < used
      · have hheld : bytes buf 0 used ≠ [] := List.ne_nil_of_length_pos (by rwa [bytes_length])
        rw [if_pos h0, if_neg hheld, ← writeAll_output ho1 hk1]
        rfl
      · rw [if_neg h0, show used = 0 by omega, bytes, if_pos rfl, ho1]
        rfl
    · rw [if_neg hend, if_neg hend]
      have hgot : (w.input.take size).length ≤ size := List.length_take_le _ _
      have hheld := bytes_put_behind buf used (w.input.take size)
      generalize put buf used (w.input.take size) = buf1 at hheld ⊢
      generalize hused1 : used + (w.input.take size).length = used1 at hheld ⊢
      obtain ⟨h1, h2, -, h4⟩ := scanLines_eq e buf1 used1 (le_refl 0) w1
      rw [Nat.sub_self, bytes, hheld] at h1
      rw [Nat.sub_self, bytes, zero_add, hheld] at h2
      rw [zero_add] at h4
      generalize scanLines e buf1 used1 0 0 w1 = scanned at h1 h2 h4 ⊢
      generalize splitLines [] (bytes buf 0 used ++ w.input.take size) = split at h1 h2 ⊢
      obtain ⟨w2, segmentStart⟩ := scanned
      obtain ⟨lines, rest⟩ := split
      dsimp only at h1 h2 h4 ⊢
      have hbuf := bytes_rest buf1 segmentStart used1
      rw [← h2] at hbuf
      generalize (if 0 < segmentStart then
        (moveDown segmentStart (used1 - segmentStart) 0 buf1, used1 - segmentStart)
        else (buf1, used1)) = moved at hbuf ⊢
      obtain ⟨buf2, used2⟩ := moved
      dsimp only at hbuf ⊢
      have hinput : w2.input = w.input.drop size := by rw [h1, writeAll_input, ← hw1]
      have hreads : w2.reads = w.reads + 1 := by rw [h1, writeAll_reads, ← hw1]
      have hshort : (w.input.drop size).length < fuel := by
        have hpos := List.length_pos_of_ne_nil hend
        rw [List.length_take] at hpos
        rw [List.length_drop]
        omega
      have hrest : rest.length = used2 := by rw [← hbuf, bytes_length]
      rw [hrest, ← hbuf]
      split
      · obtain ⟨w', hw', hout⟩ := ih (w := w2.sysWriteFd e (bytes buf2 0 used2)) buf2
          (by rwa [sysWriteFd, hinput]) (by decide : 0 < catBufSize)
        refine ⟨w', hw', ?_⟩
        rw [hout, ← writeAll_output ho1 hk1, writeAll_append, ← h1, ← hinput, ← hreads]
        rfl
      · rename_i hfull
        have hlen := congrArg List.length h2
        rw [bytes_length, hrest] at hlen
        obtain ⟨w', hw', hout⟩ := ih (w := w2) buf2 (by rwa [hinput])
          (show used2 < catBufSize by omega)
        refine ⟨w', hw', ?_⟩
        rw [hout, ← writeAll_output ho1 hk1, writeAll_append, ← h1, hinput, hreads]

/-- What the pipe accepts of the pieces, from the `k`-th write on. -/
def accepted (e : Transfers) : Nat → List (List UInt8) → List UInt8
  | _, [] => []
  | k, p :: ps => p.take (max 1 (e.room k)) ++ accepted e (k + 1) ps

lemma writeAll_accepted (w : CatFiles) (ps : List (List UInt8)) :
    (writeAll e w ps).output = w.output ++ accepted e w.writes ps := by
  induction ps generalizing w with
  | nil => exact (List.append_nil _).symm
  | cons p ps ih =>
    rw [accepted, ← List.append_assoc]
    exact ih (w.sysWriteFd e p)

lemma accepted_length_le (k : Nat) (ps : List (List UInt8)) :
    (accepted e k ps).length ≤ ps.flatten.length := by
  induction ps generalizing k with
  | nil => exact le_refl 0
  | cons p ps ih =>
    have h := ih (k + 1)
    rw [accepted, List.flatten_cons, List.length_append, List.length_append, List.length_take]
    omega

/-- All bytes of the pieces are accepted only where there is room for each of them. -/
lemma accepted_eq (k : Nat) (ps : List (List UInt8)) :
    accepted e k ps = ps.flatten ↔ RoomFor e k ps := by
  induction ps generalizing k with
  | nil => exact iff_of_true rfl trivial
  | cons p ps ih =>
    rw [accepted, List.flatten_cons, RoomFor, ← ih]
    constructor
    · intro h
      have hlen := congrArg List.length h
      have hle := accepted_length_le (e := e) (k + 1) ps
      rw [List.length_append, List.length_append, List.length_take] at hlen
      have hroom : p.length ≤ max 1 (e.room k) := by omega
      rw [List.take_of_length_le hroom] at h
      exact ⟨hroom, List.append_cancel_left h⟩
    · rintro ⟨hroom, h⟩
      rw [List.take_of_length_le hroom, h]

/-- `cat` comes to the end of its input, and the input is in the pipe exactly when the pipe had room
for every piece. -/
theorem cat_copies (e : Transfers) (buf : Nat → UInt8) (input : List UInt8) :
    Copies e buf input ↔ RoomFor e 0 (pieces e input) := by
  obtain ⟨w', hw', hout⟩ :=
    catLoop_output (e := e) (w := ⟨input, [], 0, 0⟩) buf (Nat.lt_succ_self input.length)
      (by decide : 0 < catBufSize)
  rw [writeAll_accepted, List.nil_append] at hout
  replace hout : w'.output = accepted e 0 (pieces e input) := hout
  have hflat : (pieces e input).flatten = input :=
    cutPieces_flatten (Nat.lt_succ_self input.length) (by decide)
  rw [← accepted_eq, hflat]
  constructor
  · rintro ⟨w, hw, ho⟩
    rw [catMain, hw', Option.some_inj] at hw
    rw [← hout, hw, ho]
  · intro h
    exact ⟨w', hw', hout.trans h⟩

/-- The pipe has room for two of the three bytes of a line. -/
theorem short_write : ¬Copies ⟨fun _ => 256, fun _ => 2⟩ (fun _ => 0) [97, 98, 10] := by
  rintro ⟨w, hw, ho⟩
  have hrun : catMain ⟨fun _ => 256, fun _ => 2⟩ (fun _ => 0) [97, 98, 10] =
      some ⟨[], [97, 98], 2, 1⟩ := by
    decide +kernel
  rw [hrun, Option.some_inj] at hw
  rw [← hw] at ho
  revert ho
  decide

end TP2Kernel.Proofs
