import TP2Kernel.Proofs.Shell

/-!
# Editing a line

While a line is only edited, the bytes behind it stay zero. The editor then answers Enter and
backspace up to the length at which it stops to look at the key.
-/

namespace TP2Kernel.Proofs
open CString Function Shell

variable {σ : Shell} {c : UInt8} {keys : List UInt8}

/-- An intact shell with nothing behind the line. -/
structure Edited (σ : Shell) : Prop extends Intact σ where
  blank : ∀ x, σ.linePos ≤ x → σ.line x = 0

lemma editing_ne_zero (h : Editing c) : c ≠ 0 := by
  rintro rfl
  revert h
  decide

/-- The four ways of an editing key. -/
lemma printLine_editing (h : Editing c) (hlt : σ.linePos < maxBuff) :
    (σ.printLine c).1 = σ ∨
      (σ.printLine c).1 = { σ with line := update σ.line σ.linePos c, linePos := σ.linePos + 1 } ∨
      (σ.printLine c).1 =
        { σ with line := update σ.line (σ.linePos - 1) 0, linePos := σ.linePos - 1 } := by
  rw [printLine, if_neg (editing_ne_zero h), if_neg (by omega)]
  by_cases hp : isChar c ∨ c = 32 ∨ isDigit c
  · have hup : ¬isUpperArrow c := by
      rintro rfl
      revert h
      decide
    have hdown : ¬isDownArrow c := by
      rintro rfl
      revert h
      decide
    rw [if_pos hp, handleSpecialCommands, if_neg hup, if_neg hdown, access_of (by omega)]
    split
    · exact Or.inl rfl
    · exact Or.inr (Or.inl rfl)
  · obtain ⟨hchar, -⟩ | rfl | rfl := h
    · exact absurd (Or.inl hchar) hp
    · exact absurd (Or.inr (Or.inl rfl)) hp
    · rw [if_neg hp]
      split
      · rw [access_of (by omega)]
        exact Or.inr (Or.inr rfl)
      · exact Or.inl rfl

lemma printLine_full (hfull : maxBuff ≤ σ.linePos) (c : UInt8) : σ.printLine c = (σ, none) := by
  rw [printLine]
  split
  · rfl
  · rfl

lemma Edited.step (h : Edited σ) (hc : Editing c) : Edited (σ.printLine c).1 := by
  by_cases hfull : maxBuff ≤ σ.linePos
  · rwa [printLine_full hfull]
  have hlt : σ.linePos < maxBuff := by omega
  obtain he | he | he := printLine_editing hc hlt
  · rwa [he]
  · rw [he]
    refine ⟨append_intact h.toIntact hlt (editing_ne_zero hc) (h.blank _ (by omega)), ?_⟩
    intro x hx
    dsimp only at hx ⊢
    rw [update_of_ne (by omega), h.blank x (by omega)]
  · rw [he]
    refine ⟨backspace_intact h.toIntact, ?_⟩
    intro x hx
    dsimp only at hx ⊢
    by_cases hx' : x = σ.linePos - 1
    · rw [hx', update_self]
    · rw [update_of_ne hx', h.blank x (by omega)]

lemma Edited.typed (h : Edited σ) (hk : ∀ c ∈ keys, Editing c) : Edited (σ.typed keys) := by
  induction keys generalizing σ with
  | nil => exact h
  | cons c cs ih =>
    exact ih (h.step (hk c List.mem_cons_self)) fun d hd => hk d (List.mem_cons_of_mem c hd)

lemma initial_edited : Edited initial := ⟨initial_intact, fun _ _ => rfl⟩

/-- With room on the line, Enter and backspace do their work. -/
lemma Intact.responds (h : Intact σ) (hlt : σ.linePos < maxBuff) : σ.Responds := by
  have henter : σ.printLine 10 = (σ.newLine.1, some σ.newLine.2) := by
    rw [printLine, if_neg (by decide), if_neg (by omega), if_neg (by decide), if_neg (by simp),
      if_pos rfl]
  constructor
  · rw [henter, newLine_eq h hlt]
  · rw [henter, newLine_eq h hlt]
  · intro hpos
    rw [printLine, if_neg (by decide), if_neg (by omega), if_neg (by decide),
      if_pos ⟨rfl, hpos⟩, access_of (by omega), backspace_text]

/-- The editor answers Enter and backspace as long as the line is not full. -/
theorem editor_responds (keys : List UInt8) (hk : ∀ c ∈ keys, Editing c) :
    (initial.typed keys).Responds ↔ (initial.typed keys).linePos < maxBuff := by
  constructor
  · intro hr
    by_contra hfull
    have henter := hr.executes
    rw [printLine_full (by omega)] at henter
    cases henter
  · exact (initial_edited.typed hk).toIntact.responds

/-- The line `ls`. -/
theorem editor_responds_ls : (initial.typed [108, 115]).Responds :=
  (editor_responds [108, 115] (by decide +kernel)).mpr (by decide)

/-- As many letters as the line can hold. -/
theorem full_line_ignored :
    (∀ c ∈ List.replicate 254 97, Editing c) ∧
      ¬(initial.typed (List.replicate 254 97)).Responds := by
  constructor
  · intro c hc
    rw [List.eq_of_mem_replicate hc]
    decide
  · intro hr
    have henter := hr.executes
    rw [printLine_full (by decide +kernel)] at henter
    cases henter

end TP2Kernel.Proofs
