import TP2Kernel.Proofs.Shell

/-!
# The two splitters

`checkLine` ends the command at the first space and takes all that follows as the parameter.
`parse_command_line` does not count the spaces around either of them.
-/

namespace TP2Kernel.Proofs
open CString Function Shell

variable {σ : Shell} {t s out : CStr} {c : UInt8}

/-- Remove the spaces at the beginning. -/
def trimStart (s : CStr) : CStr := s.dropWhile fun c => c = 32

lemma copyWord_eq (h : out.length + s.length ≤ maxBuff) :
    copyWord s out = (out ++ firstWord s, s.dropWhile fun c => c ≠ 32) := by
  induction s generalizing out with
  | nil => simp [copyWord, firstWord]
  | cons c cs ih =>
    rw [List.length_cons] at h
    rw [copyWord]
    by_cases hc : c = 32
    · simp [hc, firstWord]
    · rw [if_neg hc, if_pos (by omega), ih (by simp; omega)]
      simp [hc, firstWord]

lemma copyRest_eq (h : out.length + s.length ≤ maxBuff) : copyRest s out = out ++ s := by
  induction s generalizing out with
  | nil => simp [copyRest]
  | cons c cs ih =>
    rw [List.length_cons] at h
    rw [copyRest, if_pos (by omega), ih (by simp; omega), List.append_assoc, List.singleton_append]

lemma trimStart_behind (s : CStr) :
    trimStart (s.dropWhile fun c => c ≠ 32) = trimStart (behindWord s) := by
  by_cases h : 32 ∈ s
  · induction s with
    | nil => rfl
    | cons c cs ih =>
      by_cases hc : c = 32
      · simp [behindWord, trimStart, hc]
      · rw [behindWord] at ih ⊢
        simpa [hc] using ih (by simpa [Ne.symm hc] using h)
  · rw [behindWord, List.dropWhile_eq_nil_iff.mpr, List.tail_nil]
    intro c hc
    simpa using fun h' : c = 32 => h (h' ▸ hc)

/-- `parse_command_line` in terms of the words of the text. -/
lemma parseCommandLine_eq (h : t.length ≤ maxBuff) :
    (parseCommandLine t).2 =
      (firstWord (trimStart t), trimEnd (trimStart (behindWord (trimStart t)))) := by
  have hstart : (trimStart t).length ≤ t.length := (List.dropWhile_sublist _).length_le
  have hrest : (trimStart ((trimStart t).dropWhile fun c => c ≠ 32)).length ≤ t.length :=
    ((List.dropWhile_sublist _).trans ((List.dropWhile_sublist _).trans
      (List.dropWhile_sublist _))).length_le
  rw [parseCommandLine]
  change ((copyWord (trimStart t) []).1,
    trimEnd (copyRest (trimStart (copyWord (trimStart t) []).2) [])) = _
  rw [copyWord_eq (by rw [List.length_nil]; omega),
    copyRest_eq (by rw [List.length_nil, zero_add]; exact hrest.trans h), trimStart_behind]
  rfl

lemma trimStart_eq_self : trimStart s = s ↔ s.head? ≠ some 32 := by
  cases s with
  | nil => simp [trimStart]
  | cons c cs =>
    by_cases hc : c = 32
    · have hle : (trimStart cs).length ≤ cs.length := (List.dropWhile_sublist _).length_le
      have hdrop : trimStart (c :: cs) = trimStart cs := by simp [trimStart, hc]
      constructor
      · intro he
        rw [hdrop] at he
        rw [he, List.length_cons] at hle
        omega
      · intro hne
        exact absurd (congrArg some hc) hne
    · simp [trimStart, hc]

lemma trimEnd_eq_self : trimEnd s = s ↔ s.getLast? ≠ some 32 := by
  rw [trimEnd, List.rdropWhile_eq_self_iff]
  cases s using List.reverseRecOn with
  | nil => simp
  | append_singleton cs c => simp

/-- A text that is trimmed to itself. -/
lemma trim_eq_self : trimEnd (trimStart s) = s ↔ s.head? ≠ some 32 ∧ s.getLast? ≠ some 32 := by
  have hend := (trimEnd_isPrefix (trimStart s)).length_le
  have hstart : trimStart s <:+ s := List.dropWhile_suffix _
  constructor
  · intro h
    have hlen := congrArg List.length h
    have hs : trimStart s = s := hstart.eq_of_length_le (by omega)
    rw [hs] at h
    exact ⟨trimStart_eq_self.mp hs, trimEnd_eq_self.mp h⟩
  · rintro ⟨h1, h2⟩
    rw [trimStart_eq_self.mpr h1, trimEnd_eq_self.mpr h2]

/-- The first word is empty only where no word is. -/
lemma firstWord_trimStart (s : CStr) : firstWord (trimStart s) = [] ↔ trimStart s = [] := by
  constructor
  · intro h
    by_contra hne
    obtain ⟨c, cs, hcs⟩ := List.exists_cons_of_ne_nil hne
    have hidem : trimStart (trimStart s) = trimStart s := List.dropWhile_idempotent _ _
    have hhead := trimStart_eq_self.mp hidem
    rw [hcs] at h hhead
    have hc : c ≠ 32 := fun hc => hhead (congrArg some hc)
    simp [firstWord, hc] at h
  · intro h
    rw [h]
    rfl

/-- In a careful session the splitter always finds such a state. -/
theorem Intact.splitting (h : Intact σ) : Splitting σ σ.text :=
  ⟨rfl, h.command_zero, h.parameter_zero⟩

lemma extracted_eq (h : Splitting σ t) (hz : 0 ∉ t) (hlen : t.length ≤ maxBuff - 1) :
    σ.extracted = (firstWord t, behindWord t) := by
  have hpos := text_length σ
  have hf := (firstWord_sublist t).length_le
  have hb := (behindWord_sublist t).length_le
  have htext := h.text_eq
  have hmax : maxBuff - 1 < maxBuff := by decide
  rw [htext] at hpos
  rw [extracted, checkLine_eq (htext ▸ hz) h.command_zero h.parameter_zero (by omega)]
  dsimp only
  rw [htext, read_put, read_put]
  · exact fun h0 => hz ((behindWord_sublist t).subset h0)
  · exact h.parameter_zero _
  · omega
  · exact fun h0 => hz ((firstWord_sublist t).subset h0)
  · exact h.command_zero _
  · omega

/-- The two splitters agree on the texts without a space before the command, before the parameter
or behind it, and on the single space. -/
theorem splitters_agree (h : Splitting σ t) (hp : ∀ c ∈ t, isChar c ∨ c = 32)
    (hlen : t.length ≤ maxBuff - 1) :
    σ.extracted = (parseCommandLine t).2 ↔ SplitsAlike t := by
  have hz : 0 ∉ t := by
    intro h0
    have := hp 0 h0
    revert this
    decide
  have hmax : t.length ≤ maxBuff := hlen.trans (Nat.sub_le _ _)
  rw [extracted_eq h hz hlen, parseCommandLine_eq hmax, SplitsAlike, Prod.mk.injEq]
  by_cases hhead : t.head? = some 32
  · obtain ⟨t', rfl⟩ : ∃ t', t = 32 :: t' := by
      cases t with
      | nil => cases hhead
      | cons c t' => exact ⟨t', by rw [Option.some_inj.mp hhead]⟩
    have hword : firstWord (32 :: t') = [] := by simp [firstWord]
    have hbehind : behindWord (32 :: t') = t' := by simp [behindWord]
    rw [hword, hbehind, eq_comm, firstWord_trimStart]
    constructor
    · rintro ⟨hnil, hparam⟩
      rw [hnil] at hparam
      exact Or.inl (by rw [hparam]; rfl)
    · rintro (hone | ⟨hne, -⟩)
      · rw [hone]
        have ht' : t' = [] := by simpa using hone
        rw [ht']
        exact ⟨rfl, rfl⟩
      · exact absurd rfl hne
  · rw [trimStart_eq_self.mpr hhead, eq_comm (b := trimEnd _), trim_eq_self]
    have hone : t ≠ [32] := by
      rintro rfl
      exact hhead rfl
    simp [hone, hhead]

/-- The line `kill 5`, as it stands when Enter is typed. -/
theorem splitters_agree_kill :
    (initial.typed [107, 105, 108, 108, 32, 53]).extracted =
      (parseCommandLine [107, 105, 108, 108, 32, 53]).2 :=
  (splitters_agree ⟨by decide, fun _ => rfl, fun _ => rfl⟩ (by decide +kernel) (by decide)).mpr
    (by decide)

/-- The line ` ps`: `checkLine` finds no command, `parse_command_line` finds `ps`. -/
theorem leading_space :
    Splitting (initial.typed [32, 112, 115]) [32, 112, 115] ∧
      (initial.typed [32, 112, 115]).extracted ≠ (parseCommandLine [32, 112, 115]).2 :=
  ⟨⟨by decide, fun _ => rfl, fun _ => rfl⟩, by decide +kernel⟩

end TP2Kernel.Proofs
