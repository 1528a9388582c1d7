import TP2Kernel.Shell

/-!
# Long sessions with the line editor

What the loops of the editor leave in its buffers, in terms of the text on the line. From it, when
the line stays well formed and when the editor responds to Enter and to backspace.
-/

namespace TP2Kernel.Proofs
open CString Function Shell

variable {σ σ' : Shell} {t s : CStr} {c : UInt8} {cs keys : List UInt8} {line : Nat → UInt8}
  {n j k p x : Nat}

lemma trimEnd_isPrefix (t : CStr) : trimEnd t <+: t := List.rdropWhile_prefix _ t

lemma splitBackground_isPrefix (t : CStr) : (splitBackground t).1 <+: t := by
  rw [splitBackground]
  split
  · have hlast := List.dropLast_prefix (trimEnd t)
    exact (trimEnd_isPrefix _).trans (hlast.trans (trimEnd_isPrefix t))
  · exact List.prefix_refl t

/-- A text with a space is its first word, the space and the rest. -/
lemma firstWord_space (h : 32 ∈ t) : firstWord t ++ 32 :: behindWord t = t := by
  have hd : t.dropWhile (fun c => c ≠ 32) ≠ [] := by
    intro hnil
    rw [List.dropWhile_eq_nil_iff] at hnil
    simpa using hnil 32 h
  have hhead := List.head_dropWhile_not (fun c : UInt8 => decide (c ≠ 32)) hd
  have h32 : (t.dropWhile fun c => c ≠ 32).head hd = 32 := by simpa using hhead
  have htail := List.cons_head_tail hd
  rw [h32] at htail
  rw [firstWord, behindWord, htail, List.takeWhile_append_dropWhile]

lemma firstWord_of_notMem (h : 32 ∉ t) : firstWord t = t := by
  rw [firstWord, List.takeWhile_eq_self_iff]
  intro c hc
  simpa using fun h' : c = 32 => h (h' ▸ hc)

lemma behindWord_of_notMem (h : 32 ∉ t) : behindWord t = [] := by
  rw [behindWord, List.dropWhile_eq_nil_iff.mpr, List.tail_nil]
  intro c hc
  simpa using fun h' : c = 32 => h (h' ▸ hc)

lemma drop_firstWord (t : CStr) : t.drop ((firstWord t).length + 1) = behindWord t := by
  induction t with
  | nil => rfl
  | cons c cs ih =>
    by_cases h : c = 32
    · simp [firstWord, behindWord, h]
    · rw [firstWord, behindWord] at ih ⊢
      simpa [h] using ih

/-- What a history entry needs. -/
lemma entry_length (t : CStr) :
    (firstWord t ++ 32 :: behindWord t).length = if 32 ∈ t then t.length else t.length + 1 := by
  split
  · rename_i h
    rw [firstWord_space h]
  · rename_i h
    rw [firstWord_of_notMem h, behindWord_of_notMem h, List.length_append, List.length_singleton]

lemma firstWord_sublist (t : CStr) : (firstWord t).Sublist t := List.takeWhile_sublist _

lemma behindWord_sublist (t : CStr) : (behindWord t).Sublist t :=
  (List.tail_sublist _).trans (List.dropWhile_sublist _)

lemma hasPipe_eq_none (h : 124 ∉ s) : hasPipe s = none := by
  rw [hasPipe, List.findIdx?_eq_none_iff]
  intro c hc
  simpa using fun h' : c = 124 => h (h' ▸ hc)

/-- The place of a `'|'`, and what stands on its two sides. -/
lemma hasPipe_eq_some (h : 124 ∈ s) :
    ∃ p, hasPipe s = some p ∧ p < s.length ∧ s.take p = s.takeWhile (fun c => c ≠ 124) ∧
      s.drop (p + 1) = (s.dropWhile fun c => c ≠ 124).tail := by
  induction s with
  | nil => exact absurd h List.not_mem_nil
  | cons c cs ih =>
    by_cases hc : c = 124
    · subst hc
      exact ⟨0, by simp [hasPipe, List.findIdx?_cons], by simp, by simp, by simp⟩
    · obtain ⟨p, hp, hlt, htake, hdrop⟩ := ih (by simpa [Ne.symm hc] using h)
      rw [hasPipe] at hp
      refine ⟨p + 1, ?_, ?_, ?_, ?_⟩
      · simp [hasPipe, List.findIdx?_cons, hc, hp]
      · simpa using hlt
      · simp [hc, htake]
      · simpa [hc] using hdrop

lemma hasPipe_isSome (s : CStr) : (hasPipe s).isSome = true ↔ 124 ∈ s := by
  by_cases h : 124 ∈ s
  · obtain ⟨p, hp, -⟩ := hasPipe_eq_some h
    simp [hp, h]
  · simp [hasPipe_eq_none h, h]

lemma trimEnd_bytes (line : Nat → UInt8) (n : Nat) :
    trimEnd (bytes line 0 n) = bytes line 0 (trimmedLen line n) := by
  induction n with
  | zero => rfl
  | succ n ih =>
    rw [bytes_succ, trimmedLen, trimEnd, List.rdropWhile_concat]
    by_cases h : line n = 32
    · rw [if_pos h, if_pos (by simpa using h)]
      exact ih
    · rw [if_neg h, if_neg (by simpa using h), bytes_succ]

lemma trimmedLen_le (line : Nat → UInt8) (n : Nat) : trimmedLen line n ≤ n := by
  have h := (trimEnd_isPrefix (bytes line 0 n)).length_le
  rwa [trimEnd_bytes, bytes_length, bytes_length] at h

lemma trimmedLen_congr {line' : Nat → UInt8} (h : ∀ x < n, line' x = line x) :
    trimmedLen line' n = trimmedLen line n := by
  induction n with
  | zero => rfl
  | succ n ih => rw [trimmedLen, trimmedLen, h n (by omega), ih fun x hx => h x (by omega)]

/-- `eraseSpaces` ends where `trimmedLen` does, and clears what it walks over. -/
lemma eraseSpaces_eq (line : Nat → UInt8) (n : Nat) :
    (eraseSpaces line n).2 = trimmedLen line n ∧
      ∀ x, (eraseSpaces line n).1 x = if trimmedLen line n ≤ x ∧ x < n then 0 else line x := by
  induction n generalizing line with
  | zero => simp [eraseSpaces, trimmedLen]
  | succ n ih =>
    rw [eraseSpaces, trimmedLen]
    by_cases h : line n = 32
    · have hcongr : trimmedLen (update line n 0) n = trimmedLen line n :=
        trimmedLen_congr fun x hx => update_of_ne (by omega) 0 line
      obtain ⟨h2, h1⟩ := ih (update line n 0)
      rw [if_pos h, if_pos h, h2, hcongr]
      refine ⟨rfl, fun x => ?_⟩
      rw [h1, hcongr]
      have hle := trimmedLen_le line n
      by_cases hx : x = n
      · rw [if_neg (by omega), if_pos (by omega), hx, update_self]
      · rw [update_of_ne hx]
        congr 1
        rw [eq_iff_iff]
        omega
    · rw [if_neg h, if_neg h]
      refine ⟨rfl, fun x => ?_⟩
      rw [if_neg (by omega)]

lemma copyCommand_eq (line command : Nat → UInt8) (j n : Nat) :
    copyCommand line command j n =
      (put command j (firstWord (bytes line j n)), j + (firstWord (bytes line j n)).length) := by
  induction n generalizing command j with
  | zero => rfl
  | succ n ih =>
    rw [copyCommand, bytes, firstWord]
    by_cases h : line j = 32
    · rw [if_pos h, List.takeWhile_cons_of_neg (by simpa using h), put, List.length_nil, add_zero]
    · rw [if_neg h, ih, List.takeWhile_cons_of_pos (by simpa using h), put, List.length_cons,
        firstWord]
      congr 1
      omega

lemma copyParameter_eq (line parameter : Nat → UInt8) (k j n : Nat) :
    copyParameter line parameter k j n = put parameter k (bytes line j n) := by
  induction n generalizing parameter k j with
  | zero => rfl
  | succ n ih => rw [copyParameter, ih, bytes, put]

/-- `σ'` holds the text `t` on the line of `σ`. -/
structure Trims (σ σ' : Shell) (t : CStr) : Prop where
  text_eq : σ'.text = t
  ends : σ'.line σ'.linePos = 0
  beyond : ∀ x, σ.linePos ≤ x → σ'.line x = σ.line x
  others : σ' = { σ with line := σ'.line, linePos := σ'.linePos }

lemma text_length (σ : Shell) : σ.text.length = σ.linePos := bytes_length _ _ _

lemma removeAmpersand_trims (h0 : σ.line σ.linePos = 0) :
    Trims σ σ.removeAmpersand.1 (splitBackground σ.text).1 ∧
      σ.removeAmpersand.2 = (splitBackground σ.text).2 := by
  have htrim : trimEnd σ.text = bytes σ.line 0 (trimmedLen σ.line σ.linePos) :=
    trimEnd_bytes _ _
  have hle := trimmedLen_le σ.line σ.linePos
  rw [removeAmpersand, splitBackground, htrim]
  generalize trimmedLen σ.line σ.linePos = n at htrim hle ⊢
  cases n with
  | zero => exact ⟨⟨rfl, h0, fun _ _ => rfl, rfl⟩, rfl⟩
  | succ n =>
    rw [bytes_succ, List.getLast?_concat, List.dropLast_concat]
    dsimp only
    by_cases hamp : σ.line n = 38
    · rw [if_pos ⟨Nat.succ_pos n, hamp⟩, if_pos (congrArg some hamp)]
      refine ⟨?_, rfl⟩
      obtain ⟨h2, h1⟩ := eraseSpaces_eq (update σ.line n 0) n
      have hcongr : trimmedLen (update σ.line n 0) n = trimmedLen σ.line n :=
        trimmedLen_congr fun x hx => update_of_ne (by omega) 0 σ.line
      have hle' := trimmedLen_le σ.line n
      rw [hcongr] at h2 h1
      refine ⟨?_, ?_, ?_, rfl⟩
      · show bytes _ 0 _ = _
        rw [trimEnd_bytes]
        simp only [Nat.add_sub_cancel, h2]
        apply bytes_congr
        intro x _ hx
        rw [h1, if_neg (by omega), update_of_ne (by omega)]
      · show (eraseSpaces (update σ.line n 0) n).1 _ = 0
        rw [h1]
        simp only [Nat.add_sub_cancel, h2]
        by_cases hn : trimmedLen σ.line n < n
        · rw [if_pos ⟨le_refl _, hn⟩]
        · rw [if_neg (by omega), show trimmedLen σ.line n = n by omega, update_self]
      · intro x hx
        show (eraseSpaces (update σ.line n 0) n).1 x = _
        rw [h1, if_neg (by omega), update_of_ne (by omega)]
    · rw [if_neg fun h => hamp h.2, if_neg fun h => hamp (Option.some_inj.mp h)]
      exact ⟨⟨rfl, h0, fun _ _ => rfl, rfl⟩, rfl⟩

/-- Between two keys of a session in which every key was handled with care. -/
structure Intact (σ : Shell) : Prop extends σ.WellFormed where
  beyond : ∀ x, maxBuff ≤ x → σ.line x = 0
  command_zero : ∀ x, σ.command x = 0
  parameter_zero : ∀ x, σ.parameter x = 0
  idx_le : σ.commandIdxMax ≤ maxCommand
  rows : ∀ r < maxCommand, ∃ i < maxBuff, σ.commandHistory (r * maxBuff + i) = 0

lemma access_of {ok : Prop} [Decidable ok] (h : ok) : σ.access ok = σ := by
  rw [access, decide_eq_true h, Bool.and_true]

lemma access_congr {ok ok' : Prop} [Decidable ok] [Decidable ok'] (h : ok ↔ ok') :
    σ.access ok = σ.access ok' := by
  rw [access, access, decide_eq_decide.mpr h]

/-- The text is stored as the next row of the history. -/
def record (σ : Shell) (t : CStr) : Shell :=
  { σ with
    commandHistory := store σ.commandHistory (σ.commandIdxMax * maxBuff)
      (firstWord t ++ 32 :: behindWord t)
    commandIdxMax := σ.commandIdxMax + 1
    commandIterator := σ.commandIdxMax + 1 }.access
      (σ.commandIdxMax < maxCommand ∧ (firstWord t ++ 32 :: behindWord t).length < maxBuff)

/-- The parameter that `checkLine` copies. -/
lemma parameter_copied (σ : Shell) :
    (if (firstWord σ.text).length < σ.linePos then
        copyParameter σ.line σ.parameter 0 ((firstWord σ.text).length + 1)
          (σ.linePos - ((firstWord σ.text).length + 1))
      else σ.parameter) = put σ.parameter 0 (behindWord σ.text) := by
  have hlen := text_length σ
  by_cases h : 32 ∈ σ.text
  · have hsplit := firstWord_space h
    have hlt : (firstWord σ.text).length < σ.linePos := by
      have h' := congrArg List.length hsplit
      rw [List.length_append, List.length_cons] at h'
      omega
    have hdrop : σ.text.drop ((firstWord σ.text).length + 1) = _ := bytes_drop σ.line 0 hlt
    rw [drop_firstWord, zero_add] at hdrop
    rw [if_pos hlt, copyParameter_eq, hdrop]
  · rw [firstWord_of_notMem h, behindWord_of_notMem h, hlen, if_neg (lt_irrefl _), put]

lemma checkLine_eq (hz : 0 ∉ σ.text) (hc : ∀ x, σ.command x = 0) (hp : ∀ x, σ.parameter x = 0)
    (hlen : σ.linePos ≤ maxBuff) :
    σ.checkLine =
      ({ record σ σ.text with
        command := put σ.command 0 (firstWord σ.text)
        parameter := put σ.parameter 0 (behindWord σ.text) }, commandIndex (firstWord σ.text)) := by
  have hl := text_length σ
  have hf := (firstWord_sublist σ.text).length_le
  have hb := (behindWord_sublist σ.text).length_le
  have hread : read (put σ.command 0 (firstWord σ.text)) 0 (maxBuff + 1) = firstWord σ.text :=
    read_put (fun h => hz ((firstWord_sublist _).subset h)) (hc _) (by omega)
  have hread2 : read (put σ.parameter 0 (behindWord σ.text)) 0 (maxBuff + 1) = behindWord σ.text :=
    read_put (fun h => hz ((behindWord_sublist _).subset h)) (hp _) (by omega)
  rw [checkLine, copyCommand_eq]
  dsimp only
  rw [zero_add, ← text, parameter_copied, hread, hread2, record]
  congr 1
  have hok : (σ.linePos ≤ maxBuff + 1 ∧ (firstWord σ.text).length ≤ maxBuff ∧
      (behindWord σ.text).length ≤ maxBuff ∧ σ.commandIdxMax < maxCommand ∧
      (firstWord σ.text ++ 32 :: behindWord σ.text).length < maxBuff) ↔
      σ.commandIdxMax < maxCommand ∧
        (firstWord σ.text ++ 32 :: behindWord σ.text).length < maxBuff := by
    omega
  rw [access_congr hok]
  rfl

/-- What `newLine` does with a text around a `'|'`. -/
def pipeAction (t : CStr) (isBackground : Bool) : LineAction :=
  let left := trimEnd (t.takeWhile fun c => c ≠ 124)
  let right := trimEnd ((t.dropWhile fun c => c ≠ 124).tail.dropWhile fun c => c = 32)
  if left = [] ∨ right = [] then .invalidSyntax
  else if 124 ∈ right then .onlySinglePipe
  else .pipe left right isBackground

lemma pipeLine_eq (hz : 0 ∉ σ.text) (h : 124 ∈ σ.text) (hlen : σ.linePos ≤ maxBuff)
    (b : Bool) :
    ∃ p, hasPipe σ.text = some p ∧ σ.pipeLine σ.text p b = (σ, pipeAction σ.text b) := by
  obtain ⟨p, hp, hlt, htake, hdrop⟩ := hasPipe_eq_some h
  have hl := text_length σ
  have hright : ((σ.text.drop (p + 1)).dropWhile fun c => c = 32).takeWhile (fun c => c ≠ 0) =
      (σ.text.drop (p + 1)).dropWhile fun c => c = 32 := by
    rw [List.takeWhile_eq_self_iff]
    intro c hc
    have hmem := List.drop_subset _ _ ((List.dropWhile_sublist _).subset hc)
    simpa using fun h0 : c = 0 => hz (h0 ▸ hmem)
  have hle : ((σ.text.drop (p + 1)).dropWhile fun c => c = 32).length ≤ σ.linePos - (p + 1) := by
    have h' : ((σ.text.drop (p + 1)).dropWhile fun c => c = 32).length ≤
        (σ.text.drop (p + 1)).length := (List.dropWhile_sublist _).length_le
    rwa [List.length_drop, hl] at h'
  refine ⟨p, hp, ?_⟩
  rw [pipeLine, ← text, hright, access_of (by omega), htake, hdrop, pipeAction]
  simp only [hasPipe_isSome]

lemma clearBuffers_eq (hl : ∀ x, maxBuff ≤ x → σ.line x = 0)
    (hc : ∀ x, maxBuff ≤ x → σ.command x = 0) (hp : ∀ x, maxBuff ≤ x → σ.parameter x = 0) :
    σ.clearBuffers =
      { σ with
        line := fun _ => 0
        command := fun _ => 0
        parameter := fun _ => 0
        linePos := 0 } := by
  rw [clearBuffers]
  congr 1
  · funext x
    split
    · rfl
    · exact hl x (by omega)
  · funext x
    split
    · rfl
    · exact hc x (by omega)
  · funext x
    split
    · rfl
    · exact hp x (by omega)

lemma newLine_eq (h : Intact σ) (hlt : σ.linePos < maxBuff) :
    σ.newLine =
      ({ (if 124 ∈ (splitBackground σ.text).1 then σ
          else record σ (splitBackground σ.text).1) with
        line := fun _ => 0
        linePos := 0 }, lineAction σ.text) := by
  obtain ⟨htrims, hb⟩ := removeAmpersand_trims h.ends
  rcases hsb : splitBackground σ.text with ⟨t, b⟩
  have hpre := splitBackground_isPrefix σ.text
  rw [newLine, lineAction]
  rw [hsb] at htrims hb hpre ⊢
  dsimp only at htrims hb hpre ⊢
  generalize hσ' : σ.removeAmpersand.1 = σ' at htrims ⊢
  obtain ⟨htext, hends, hbeyond, hothers⟩ := htrims
  have hz : 0 ∉ σ'.text := htext ▸ fun h0 => h.nonzero (hpre.subset h0)
  have hlen : σ'.linePos < maxBuff := by
    have h' := hpre.length_le
    rw [← htext, text_length, text_length] at h'
    omega
  have hread : read σ'.line 0 (maxBuff + 1) = σ'.text :=
    read_eq_bytes hz (by rwa [zero_add]) (by omega)
  have hclear : ∀ x, maxBuff ≤ x → σ'.line x = 0 := by
    intro x hx
    rw [hbeyond x (by omega), h.beyond x hx]
  have hc : σ.command = fun _ => 0 := funext h.command_zero
  have hp : σ.parameter = fun _ => 0 := funext h.parameter_zero
  have hc' : σ'.command = fun _ => 0 := by rw [hothers, hc]
  have hp' : σ'.parameter = fun _ => 0 := by rw [hothers, hp]
  rw [hread, hb, access_of (by rw [text_length]; omega)]
  by_cases h124 : 124 ∈ t
  · obtain ⟨p, hpos, hpipe⟩ := pipeLine_eq hz (htext ▸ h124) hlen.le b
    rw [hpos]
    simp only [hpipe, if_pos h124]
    rw [clearBuffers_eq hclear (fun x _ => congrFun hc' x) (fun x _ => congrFun hp' x), hothers]
    congr 1
    · simp only [hc, hp]
    · rw [← hothers, htext, pipeAction]
  · rw [hasPipe_eq_none (htext ▸ h124),
      checkLine_eq hz (fun x => congrFun hc' x) (fun x => congrFun hp' x) hlen.le]
    have hlen' := text_length σ'
    have hf := (firstWord_sublist σ'.text).length_le
    have hw := (behindWord_sublist σ'.text).length_le
    simp only [if_neg h124]
    rw [clearBuffers_eq]
    · congr 1
      · have hidx : σ'.commandIdxMax = σ.commandIdxMax := by rw [hothers]
        have hhist : σ'.commandHistory = σ.commandHistory := by rw [hothers]
        have hin : σ'.inBounds = σ.inBounds := by rw [hothers]
        simp only [record, access, htext, hidx, hhist, hin, hc, hp]
      · rw [read_put, read_put, htext]
        · exact fun h0 => hz ((behindWord_sublist _).subset h0)
        · rw [hp']
        · omega
        · exact fun h0 => hz ((firstWord_sublist _).subset h0)
        · rw [hc']
        · omega
    · exact hclear
    · intro x hx
      dsimp only
      rw [put_of_notMem (by omega), hc']
    · intro x hx
      dsimp only
      rw [put_of_notMem (by omega), hp']

lemma access_wellFormed {ok : Prop} [Decidable ok] :
    (σ.access ok).WellFormed ↔ σ.WellFormed ∧ ok := by
  constructor
  · rintro ⟨h1, h2, h3, h4⟩
    rw [access, Bool.and_eq_true, decide_eq_true_eq] at h1
    exact ⟨⟨h1.1, h2, h3, h4⟩, h1.2⟩
  · rintro ⟨h, hok⟩
    rwa [access_of hok]

lemma append_text (σ : Shell) (c : UInt8) :
    ({ σ with line := update σ.line σ.linePos c, linePos := σ.linePos + 1 } : Shell).text =
      σ.text ++ [c] := by
  rw [text, bytes_succ]
  dsimp only
  rw [update_self, bytes_congr fun x _ hx => update_of_ne (by omega) c σ.line, text]

lemma backspace_text (σ : Shell) :
    ({ σ with line := update σ.line (σ.linePos - 1) 0, linePos := σ.linePos - 1 } : Shell).text =
      σ.text.dropLast := by
  rw [text, text]
  dsimp only
  rw [bytes_congr fun x _ hx => update_of_ne (by omega) 0 σ.line]
  cases σ.linePos with
  | zero => rfl
  | succ n => rw [Nat.add_sub_cancel, bytes_succ, List.dropLast_concat]

/-- A character on the line. -/
lemma append_wellFormed (h : Intact σ) (hlt : σ.linePos < maxBuff) (hc : c ≠ 0) :
    ({ σ with line := update σ.line σ.linePos c, linePos := σ.linePos + 1 } : Shell).WellFormed ↔
      σ.line (σ.linePos + 1) = 0 := by
  have hnext : update σ.line σ.linePos c (σ.linePos + 1) = σ.line (σ.linePos + 1) :=
    update_of_ne (by omega) c σ.line
  constructor
  · intro hw
    rw [← hnext]
    exact hw.ends
  · intro h0
    refine ⟨h.inBounds, hlt, hnext.trans h0, ?_⟩
    rw [append_text]
    simpa [Ne.symm hc] using h.nonzero

lemma append_intact (h : Intact σ) (hlt : σ.linePos < maxBuff) (hc : c ≠ 0)
    (h0 : σ.line (σ.linePos + 1) = 0) :
    Intact { σ with line := update σ.line σ.linePos c, linePos := σ.linePos + 1 } where
  toWellFormed := (append_wellFormed h hlt hc).mpr h0
  beyond x hx := by
    dsimp only
    rw [update_of_ne (by omega), h.beyond x hx]
  command_zero := h.command_zero
  parameter_zero := h.parameter_zero
  idx_le := h.idx_le
  rows := h.rows

lemma backspace_intact (h : Intact σ) :
    Intact { σ with line := update σ.line (σ.linePos - 1) 0, linePos := σ.linePos - 1 } where
  inBounds := h.inBounds
  linePos_le := (Nat.sub_le _ _).trans h.linePos_le
  ends := update_self _ _ _
  nonzero := by
    rw [backspace_text]
    exact fun h0 => h.nonzero (List.dropLast_subset _ h0)
  beyond x hx := by
    dsimp only
    by_cases hx' : x = σ.linePos - 1
    · rw [hx', update_self]
    · rw [update_of_ne hx', h.beyond x hx]
  command_zero := h.command_zero
  parameter_zero := h.parameter_zero
  idx_le := h.idx_le
  rows := h.rows

/-- A row of the history is back on the line. -/
lemma historyCaller_intact (h : Intact σ) {d : Int} (h0 : 0 ≤ σ.commandIterator + d)
    (h1 : σ.commandIterator + d < maxCommand) : Intact (σ.historyCaller d) := by
  have hr : (σ.commandIterator + d).toNat < maxCommand := by omega
  obtain ⟨i, hi, hzero⟩ := h.rows _ hr
  rw [historyCaller]
  generalize (σ.commandIterator + d).toNat = r at hr hzero ⊢
  have hroom : i < maxCommand * maxBuff - r * maxBuff := by
    simp only [maxCommand, maxBuff] at *
    omega
  have hlen := read_length_lt hroom hzero
  have hnotMem := zero_notMem_read σ.commandHistory (r * maxBuff)
    (maxCommand * maxBuff - r * maxBuff)
  generalize read σ.commandHistory (r * maxBuff) _ = s at hlen hnotMem ⊢
  have hend := store_end σ.line 0 s
  rw [zero_add] at hend
  rw [access_of (by omega)]
  exact {
    inBounds := h.inBounds
    linePos_le := by
      dsimp only
      omega
    ends := hend
    nonzero := by
      rw [text, bytes_store]
      exact hnotMem
    beyond := by
      intro x hx
      dsimp only
      rw [store_of_notMem (by omega), h.beyond x hx]
    command_zero := h.command_zero
    parameter_zero := h.parameter_zero
    idx_le := h.idx_le
    rows := h.rows }

lemma historyCaller_wellFormed (h : Intact σ) (d : Int) :
    (σ.historyCaller d).WellFormed ↔
      0 ≤ σ.commandIterator + d ∧ σ.commandIterator + d < maxCommand := by
  constructor
  · intro hw
    rw [historyCaller] at hw
    have hok := (access_wellFormed.mp hw).2
    exact ⟨hok.1, hok.2.1⟩
  · intro hd
    exact (historyCaller_intact h hd.1 hd.2).toWellFormed

/-- What an entered line needs. -/
lemma newLine_wellFormed (h : Intact σ) (hlt : σ.linePos < maxBuff) :
    σ.newLine.1.WellFormed ↔
      124 ∈ (splitBackground σ.text).1 ∨ σ.commandIdxMax < maxCommand ∧
        (32 ∈ (splitBackground σ.text).1 ∨ (splitBackground σ.text).1.length + 1 < maxBuff) := by
  have hlen := (splitBackground_isPrefix σ.text).length_le
  rw [text_length] at hlen
  have hin := h.inBounds
  rw [newLine_eq h hlt]
  generalize (splitBackground σ.text).1 = t at hlen ⊢
  have hiff : ({ (if 124 ∈ t then σ else record σ t) with
        line := fun _ => 0, linePos := 0 } : Shell).WellFormed ↔
      (if 124 ∈ t then σ else record σ t).inBounds = true :=
    ⟨fun hw => hw.inBounds, fun hb => ⟨hb, Nat.zero_le _, rfl, List.not_mem_nil⟩⟩
  rw [hiff]
  by_cases h124 : 124 ∈ t
  · simp [h124, hin]
  · rw [if_neg h124, record, access, hin, Bool.true_and, decide_eq_true_eq, entry_length]
    by_cases h32 : 32 ∈ t
    · simp only [h124, h32, if_true, true_or, and_true, false_or, and_iff_left_iff_imp]
      omega
    · simp only [h124, h32, if_false, false_or]

lemma newLine_intact (h : Intact σ) (hlt : σ.linePos < maxBuff) (hw : σ.newLine.1.WellFormed) :
    Intact σ.newLine.1 := by
  have hneed := (newLine_wellFormed h hlt).mp hw
  have hlen := (splitBackground_isPrefix σ.text).length_le
  rw [text_length] at hlen
  refine { toWellFormed := hw, beyond := ?_, command_zero := ?_, parameter_zero := ?_,
           idx_le := ?_, rows := ?_ }
  all_goals rw [newLine_eq h hlt]
  all_goals generalize (splitBackground σ.text).1 = t at hneed hlen ⊢
  · exact fun _ _ => rfl
  · split
    · exact h.command_zero
    · exact h.command_zero
  · split
    · exact h.parameter_zero
    · exact h.parameter_zero
  · split
    · exact h.idx_le
    · rename_i h124
      exact (hneed.resolve_left h124).1
  · intro r hr
    split
    · exact h.rows r hr
    · rename_i h124
      obtain ⟨hidx, hfit⟩ := hneed.resolve_left h124
      have hentry : (firstWord t ++ 32 :: behindWord t).length < maxBuff := by
        rw [entry_length]
        split
        · omega
        · rename_i h32
          exact hfit.resolve_left h32
      show ∃ i < maxBuff, store σ.commandHistory (σ.commandIdxMax * maxBuff)
        (firstWord t ++ 32 :: behindWord t) (r * maxBuff + i) = 0
      by_cases hrow : r = σ.commandIdxMax
      · subst hrow
        exact ⟨_, hentry, store_end _ _ _⟩
      · obtain ⟨i, hi, h0⟩ := h.rows r hr
        refine ⟨i, hi, ?_⟩
        rw [store_of_notMem _, h0]
        simp only [maxBuff] at *
        omega

/-- One key, wherever it leads. -/
lemma printLine_step (h : Intact σ) (c : UInt8) :
    ((σ.printLine c).1.WellFormed ↔ σ.Careful c) ∧
      (σ.Careful c → Intact (σ.printLine c).1) := by
  rw [printLine, Careful]
  by_cases h0 : c = 0
  · rw [if_pos h0, if_pos (Or.inl h0)]
    exact ⟨iff_of_true h.toWellFormed trivial, fun _ => h⟩
  by_cases hfull : maxBuff ≤ σ.linePos
  · rw [if_neg h0, if_pos hfull, if_pos (Or.inr hfull)]
    exact ⟨iff_of_true h.toWellFormed trivial, fun _ => h⟩
  have hlt : σ.linePos < maxBuff := by omega
  have hread : ¬(c = 0 ∨ maxBuff ≤ σ.linePos) := not_or.mpr ⟨h0, hfull⟩
  rw [if_neg h0, if_neg hfull, if_neg hread]
  by_cases hp : isChar c ∨ c = 32 ∨ isDigit c
  · rw [if_pos hp, if_pos hp]
    dsimp only
    rw [handleSpecialCommands]
    split
    · exact ⟨iff_of_true h.toWellFormed trivial, fun _ => h⟩
    split
    · exact ⟨historyCaller_wellFormed h (-1), fun hd => historyCaller_intact h hd.1 hd.2⟩
    split
    · exact ⟨historyCaller_wellFormed h 1, fun hd => historyCaller_intact h hd.1 hd.2⟩
    · rw [access_of h.linePos_le]
      exact ⟨append_wellFormed h hlt h0, append_intact h hlt h0⟩
  rw [if_neg hp, if_neg hp]
  by_cases h8 : c = 8 ∧ 0 < σ.linePos
  · have hback := backspace_intact h
    rw [if_pos h8, if_neg (by simp [h8.1]), access_of (by omega)]
    exact ⟨iff_of_true hback.toWellFormed trivial, fun _ => hback⟩
  rw [if_neg h8]
  by_cases h10 : c = 10
  · rw [if_pos h10, if_pos h10]
    have hiff := newLine_wellFormed h hlt
    exact ⟨hiff, fun hneed => newLine_intact h hlt (hiff.mpr hneed)⟩
  · rw [if_neg h10, if_neg h10]
    exact ⟨iff_of_true h.toWellFormed trivial, fun _ => h⟩

lemma initial_intact : Intact initial where
  inBounds := rfl
  linePos_le := Nat.zero_le _
  ends := rfl
  nonzero := List.not_mem_nil
  beyond _ _ := rfl
  command_zero _ := rfl
  parameter_zero _ := rfl
  idx_le := Nat.zero_le _
  rows _ _ := ⟨0, by decide, rfl⟩

lemma staysWellFormed_iff (h : Intact σ) (keys : List UInt8) :
    σ.StaysWellFormed keys ↔ σ.CarefulAlong keys := by
  induction keys generalizing σ with
  | nil => exact iff_of_true h.toWellFormed trivial
  | cons c cs ih =>
    obtain ⟨hiff, hstep⟩ := printLine_step h c
    constructor
    · rintro ⟨-, hrest⟩
      have hnext : (σ.printLine c).1.WellFormed := by
        cases cs with
        | nil => exact hrest
        | cons _ _ => exact hrest.1
      have hc := hiff.mp hnext
      exact ⟨hc, (ih (hstep hc)).mp hrest⟩
    · rintro ⟨hc, hrest⟩
      exact ⟨h.toWellFormed, (ih (hstep hc)).mpr hrest⟩

/-- Every access stays in its array and the line stays well formed exactly in
the sessions in which every key is handled with care. -/
theorem line_stays_wellFormed (keys : List UInt8) :
    initial.StaysWellFormed keys ↔ initial.CarefulAlong keys :=
  staysWellFormed_iff initial_intact keys

/-- The first key of a session is the upper arrow. -/
theorem upper_arrow_first : ¬initial.StaysWellFormed [72] := by
  intro h
  have hin : ((initial.printLine 72).1).inBounds = true := h.2.inBounds
  revert hin
  decide

end TP2Kernel.Proofs
