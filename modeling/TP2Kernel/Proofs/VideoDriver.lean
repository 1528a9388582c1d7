import TP2Kernel.VideoDriver
import Mathlib.Algebra.Order.Floor.Div

/-!
# The text screen

Where the cursor stands is a function of the text alone: of the lines begun and of the columns
filled of the last one. The driver follows this layout for as long as it stays on the screen, and
it leaves the screen exactly when a full line is continued on the last one, or when the width of
the filled columns no longer fits the cursor's field.
-/

namespace TP2Kernel.Proofs
open VideoDriver

/-- Where a text ends: the lines begun before the last one and the columns filled of that. -/
structure Spot where
  line : ℕ
  column : ℕ

/-- The columns of the screen; the last one may be cut. -/
def columns (info : ScreenInfo) (scale : UInt8) : ℕ :=
  info.width.toNat ⌈/⌉ (widthFont * scale.toNat)

/-- The lines of text that fit the screen. -/
def lines (info : ScreenInfo) (scale : UInt8) : ℕ := info.height.toNat / (heightFont * scale.toNat)

/-- The layout of one more character. -/
def Spot.next (columns : ℕ) (s : Spot) (c : UInt8) : Spot :=
  if c = 10 then ⟨s.line + 1, 0⟩
  else if c = 8 then ⟨s.line, s.column - 1⟩
  else if c = 0 then s
  else if s.column = columns then ⟨s.line + 1, 1⟩
  else ⟨s.line, s.column + 1⟩

/-- A character that continues a full line at the foot of the screen, or fills a column that ends
beyond the cursor's field. -/
def Overruns (info : ScreenInfo) (scale : UInt8) (s : Spot) (c : UInt8) : Prop :=
  0 < scale.toNat ∧ c ≠ 10 ∧ c ≠ 8 ∧ c ≠ 0 ∧
    (s.column = columns info scale ∧ lines info scale ≤ s.line + 1 ∨
      s.column ≠ columns info scale ∧ 2 ^ 16 ≤ (s.column + 1) * (widthFont * scale.toNat))

instance (info : ScreenInfo) (scale : UInt8) (s : Spot) (c : UInt8) :
    Decidable (Overruns info scale s c) := inferInstanceAs (Decidable (_ ∧ _))

/-- A text none of whose characters overruns. -/
def Fits (info : ScreenInfo) (scale : UInt8) : Spot → List UInt8 → Prop
  | _, [] => True
  | s, c :: cs => ¬Overruns info scale s c ∧ Fits info scale (s.next (columns info scale) c) cs

instance decidableFits (info : ScreenInfo) (scale : UInt8) :
    (s : Spot) → (cs : List UInt8) → Decidable (Fits info scale s cs)
  | _, [] => isTrue trivial
  | s, c :: cs =>
    have := decidableFits info scale (s.next (columns info scale) c) cs
    inferInstanceAs (Decidable (_ ∧ _))

variable {info : ScreenInfo} {font : Int → UInt8} {fnt bgd : Color} {v w : VideoDriver} {s : Spot}
  {x y x' y' : ℕ} {a g : ℤ} {c : UInt8} {p : PrintCall}

@[simp] lemma setCursorX_pixelScale (v : VideoDriver) (a : ℤ) :
    (v.setCursorX a).pixelScale = v.pixelScale := rfl

@[simp] lemma setCursorY_pixelScale (v : VideoDriver) (a : ℤ) :
    (v.setCursorY a).pixelScale = v.pixelScale := rfl

@[simp] lemma drawGlyph_pixelScale (v : VideoDriver) (g : ℤ) :
    (drawGlyph info font g fnt bgd v).pixelScale = v.pixelScale := rfl

lemma getRealCharWidth_toNat (v : VideoDriver) :
    v.getRealCharWidth.toNat = widthFont * v.pixelScale.toNat := by
  have h := v.pixelScale.toNat_lt
  rw [getRealCharWidth, UInt16.toNat_ofNat', Nat.mod_eq_of_lt]
  rw [widthFont]
  omega

lemma getRealCharHeight_toNat (v : VideoDriver) :
    v.getRealCharHeight.toNat = heightFont * v.pixelScale.toNat := by
  have h := v.pixelScale.toNat_lt
  rw [getRealCharHeight, UInt16.toNat_ofNat', Nat.mod_eq_of_lt]
  rw [heightFont]
  omega

/-- The cursor stands at `(x, y)`. -/
structure At (v : VideoDriver) (x y : ℕ) : Prop where
  x : v.cursorX.toNat = x
  y : v.cursorY.toNat = y

lemma toNat_ofInt (h : x < 2 ^ 16) : (UInt16.ofInt x).toNat = x := by
  have h' : ((x : ℤ) % 2 ^ 16).toNat = x := by omega
  rw [UInt16.ofInt, h', UInt16.toNat_ofNat', Nat.mod_eq_of_lt h]

lemma At.setCursorX (h : At v x y) (ha : a = x') (hx : x' < 2 ^ 16) : At (v.setCursorX a) x' y :=
  ⟨ha ▸ toNat_ofInt hx, h.y⟩

lemma At.setCursorX_zero (h : At v x y) : At (v.setCursorX 0) 0 y := ⟨rfl, h.y⟩

lemma At.setCursorY (h : At v x y) (ha : a = y') (hy : y' < 2 ^ 16) : At (v.setCursorY a) x y' :=
  ⟨h.x, ha ▸ toNat_ofInt hy⟩

lemma At.scrollUp (h : At v x y) : At (scrollUp info v) x y := ⟨h.x, h.y⟩

lemma At.drawGlyph (h : At v x y) : At (drawGlyph info font g fnt bgd v) x y := ⟨h.x, h.y⟩

lemma onScreen_setCursorX (ha : a = x) (hx : x < 2 ^ 16) :
    OnScreen info (v.setCursorX a) ↔ OnScreen info v := by
  have h : 0 ≤ a ∧ a < 2 ^ 16 := by omega
  simp only [OnScreen, VideoDriver.setCursorX, h, and_self, decide_true, Bool.and_true]

lemma onScreen_setCursorX_zero : OnScreen info (v.setCursorX 0) ↔ OnScreen info v :=
  onScreen_setCursorX (x := 0) rfl (by omega)

lemma onScreen_setCursorY (ha : a = y) (hy : y < 2 ^ 16) :
    OnScreen info (v.setCursorY a) ↔ OnScreen info v := by
  have h : 0 ≤ a ∧ a < 2 ^ 16 := by omega
  simp only [OnScreen, VideoDriver.setCursorY, h, and_self, decide_true, Bool.and_true]

lemma onScreen_scrollUp : OnScreen info (scrollUp info v) ↔ OnScreen info v := Iff.rfl

/-- What happens later does not bring a glyph or a cursor back. -/
structure Continues (v w : VideoDriver) : Prop where
  scale : w.pixelScale = v.pixelScale
  drawn : v.drawn ⊆ w.drawn
  inRange : w.inRange = true → v.inRange = true

namespace Continues

lemma refl (v : VideoDriver) : Continues v v := ⟨rfl, List.Subset.refl _, id⟩

lemma trans {u : VideoDriver} (h : Continues u v) (h' : Continues v w) : Continues u w :=
  ⟨h'.scale.trans h.scale, List.Subset.trans h.drawn h'.drawn, h.inRange ∘ h'.inRange⟩

lemma onScreen (h : Continues v w) (hw : OnScreen info w) : OnScreen info v :=
  ⟨h.inRange hw.1, fun p hp => h.scale ▸ hw.2 p (h.drawn hp)⟩

lemma setCursorX (v : VideoDriver) (a : ℤ) : Continues v (v.setCursorX a) :=
  ⟨rfl, List.Subset.refl _, fun h => (Bool.and_eq_true_iff.mp h).1⟩

lemma setCursorY (v : VideoDriver) (a : ℤ) : Continues v (v.setCursorY a) :=
  ⟨rfl, List.Subset.refl _, fun h => (Bool.and_eq_true_iff.mp h).1⟩

lemma scrollUp (v : VideoDriver) : Continues v (scrollUp info v) := ⟨rfl, List.Subset.refl _, id⟩

lemma drawGlyph (v : VideoDriver) (g : ℤ) : Continues v (drawGlyph info font g fnt bgd v) :=
  ⟨rfl, List.subset_append_left _ _, id⟩

lemma wrapLine (v : VideoDriver) : Continues v (wrapLine info v) := by
  rw [VideoDriver.wrapLine]
  split
  · dsimp only
    split
    · exact ((setCursorX v 0).trans (setCursorY _ _)).trans (scrollUp _)
    · exact (setCursorX v 0).trans (setCursorY _ _)
  · exact refl v

lemma drawChar (v : VideoDriver) (c : UInt8) : Continues v (drawChar info font c fnt bgd v) :=
  ((wrapLine v).trans (drawGlyph _ _)).trans (setCursorX _ _)

lemma newline (v : VideoDriver) : Continues v (newline info v) := by
  rw [VideoDriver.newline]
  split
  · exact (((setCursorX v 0).trans (setCursorY _ _)).trans (setCursorY _ _)).trans (scrollUp _)
  · exact (setCursorX v 0).trans (setCursorY _ _)

lemma backspace (v : VideoDriver) : Continues v (backspace info font fnt bgd v) := by
  rw [VideoDriver.backspace]
  split
  · exact ((setCursorX v _).trans (drawChar _ _)).trans (setCursorX _ _)
  · exact ((setCursorX v _).trans (drawChar _ _)).trans (setCursorX _ _)

lemma print (v : VideoDriver) (p : PrintCall) : Continues v (print info font v p) := by
  rw [VideoDriver.print]
  split
  · exact newline v
  · split
    · exact backspace v
    · split
      · exact refl v
      · exact drawChar v p.c

lemma printAll (v : VideoDriver) (text : List PrintCall) :
    Continues v (printAll info font v text) := by
  induction text generalizing v with
  | nil => exact refl v
  | cons p text ih => exact (print v p).trans (ih _)

end Continues

lemma onScreen_drawGlyph (h : At v x y) :
    OnScreen info (drawGlyph info font g fnt bgd v) ↔
      OnScreen info v ∧ y + heightFont * v.pixelScale.toNat ≤ info.height.toNat := by
  rw [← h.y]
  simp only [OnScreen, drawGlyph, List.mem_append, List.mem_singleton, or_imp, forall_and,
    forall_eq, and_assoc]

lemma wrapLine_of_lt (h : At v x y) (hx : x < info.width.toNat) : wrapLine info v = v := by
  rw [wrapLine, if_neg]
  rw [UInt16.le_iff_toNat_le, h.x]
  omega

lemma At.wrapLine (h : At v x y) (hx : x < info.width.toNat) : At (wrapLine info v) x y := by
  rwa [wrapLine_of_lt h hx]

lemma wrapLine_at (info : ScreenInfo) (h : At v x y) (hx : info.width.toNat ≤ x)
    (hy : y + heightFont * v.pixelScale.toNat ≤ info.height.toNat) :
    At (wrapLine info v) 0 (y + heightFont * v.pixelScale.toNat) ∧
      (OnScreen info (wrapLine info v) ↔ OnScreen info v) := by
  have hlt := info.height.toNat_lt
  have h0 := h.setCursorX_zero
  have hle : info.width ≤ v.cursorX := by
    rw [UInt16.le_iff_toNat_le, h.x]
    exact hx
  have he : ((v.setCursorX 0).cursorY.toNat : ℤ) + (v.setCursorX 0).getRealCharHeight.toNat =
      ((y + heightFont * v.pixelScale.toNat : ℕ) : ℤ) := by
    rw [h0.y, getRealCharHeight_toNat, setCursorX_pixelScale]
    push_cast
    rfl
  have hfit : ¬info.height.toNat <
      (v.setCursorX 0).cursorY.toNat + (v.setCursorX 0).getRealCharHeight.toNat := by omega
  rw [wrapLine, if_pos hle, if_neg hfit]
  refine ⟨h0.setCursorY he (by omega), ?_⟩
  rw [onScreen_setCursorY he (by omega), onScreen_setCursorX_zero]

lemma drawChar_eq (h : At (wrapLine info v) x y) :
    drawChar info font c fnt bgd v =
      (drawGlyph info font (16 * (c.toNat - 32)) fnt bgd (wrapLine info v)).setCursorX
        (x + widthFont * v.pixelScale.toNat : ℕ) := by
  have hd : At (drawGlyph info font (16 * (c.toNat - 32)) fnt bgd (wrapLine info v)) x y :=
    h.drawGlyph
  rw [drawChar, hd.x, getRealCharWidth_toNat, drawGlyph_pixelScale, (Continues.wrapLine v).scale]
  push_cast
  rfl

lemma drawChar_at (font : ℤ → UInt8) (fnt bgd : Color) (c : UInt8) (h : At (wrapLine info v) x y)
    (hx : x + widthFont * v.pixelScale.toNat < 2 ^ 16) :
    At (drawChar info font c fnt bgd v) (x + widthFont * v.pixelScale.toNat) y ∧
      (OnScreen info (drawChar info font c fnt bgd v) ↔
        OnScreen info (wrapLine info v) ∧
          y + heightFont * v.pixelScale.toNat ≤ info.height.toNat) := by
  rw [drawChar_eq h]
  refine ⟨h.drawGlyph.setCursorX rfl hx, ?_⟩
  rw [onScreen_setCursorX rfl hx, onScreen_drawGlyph h, (Continues.wrapLine v).scale]

lemma drawChar_far (h : At (wrapLine info v) x y)
    (hx : 2 ^ 16 ≤ x + widthFont * v.pixelScale.toNat) :
    ¬OnScreen info (drawChar info font c fnt bgd v) := by
  intro hon
  rw [drawChar_eq h] at hon
  have hlt := (of_decide_eq_true (Bool.and_eq_true_iff.mp hon.1).2).2
  omega

lemma newline_eq (h : At v x y) (hy : y + heightFont * v.pixelScale.toNat < 2 ^ 16) :
    newline info v =
      if info.height.toNat < y + 2 * (heightFont * v.pixelScale.toNat) then
        scrollUp info (((v.setCursorX 0).setCursorY
          (y + heightFont * v.pixelScale.toNat : ℕ)).setCursorY y)
      else (v.setCursorX 0).setCursorY (y + heightFont * v.pixelScale.toNat : ℕ) := by
  have h0 := h.setCursorX_zero
  have h1 := h0.setCursorY (a := (y + heightFont * v.pixelScale.toNat : ℕ)) rfl hy
  have he : ((v.setCursorX 0).cursorY.toNat : ℤ) + heightFont * (v.setCursorX 0).pixelScale.toNat =
      ((y + heightFont * v.pixelScale.toNat : ℕ) : ℤ) := by
    rw [h0.y, setCursorX_pixelScale]
    push_cast
    rfl
  have hback : ((y + heightFont * v.pixelScale.toNat : ℕ) : ℤ) -
      (heightFont : ℤ) * v.pixelScale.toNat = y := by
    push_cast
    ring
  rw [newline, he, h1.y, setCursorY_pixelScale, setCursorX_pixelScale, hback, add_assoc, ← two_mul]

lemma newline_moves (info : ScreenInfo) (h : At v x y)
    (hy : y + 2 * (heightFont * v.pixelScale.toNat) ≤ info.height.toNat) :
    At (newline info v) 0 (y + heightFont * v.pixelScale.toNat) ∧
      (OnScreen info (newline info v) ↔ OnScreen info v) := by
  have hlt := info.height.toNat_lt
  have h0 := h.setCursorX_zero
  rw [newline_eq h (by omega), if_neg (by omega)]
  refine ⟨h0.setCursorY rfl (by omega), ?_⟩
  rw [onScreen_setCursorY rfl (by omega), onScreen_setCursorX_zero]

lemma newline_scrolls (h : At v x y)
    (hy : y + heightFont * v.pixelScale.toNat ≤ info.height.toNat)
    (hlow : info.height.toNat < y + 2 * (heightFont * v.pixelScale.toNat)) :
    At (newline info v) 0 y ∧ (OnScreen info (newline info v) ↔ OnScreen info v) := by
  have hlt := info.height.toNat_lt
  have h0 := h.setCursorX_zero
  have h1 := h0.setCursorY (a := (y + heightFont * v.pixelScale.toNat : ℕ)) rfl (by omega)
  rw [newline_eq h (by omega), if_pos hlow]
  refine ⟨(h1.setCursorY rfl (by omega)).scrollUp, ?_⟩
  rw [onScreen_scrollUp, onScreen_setCursorY rfl (by omega), onScreen_setCursorY rfl (by omega),
    onScreen_setCursorX_zero]

lemma drawChar_pixelScale (v : VideoDriver) :
    (drawChar info font c fnt bgd v).pixelScale = v.pixelScale := (Continues.drawChar v c).scale

lemma backspace_eq (h : At v x y) :
    backspace info font fnt bgd v =
      let w := drawChar info font 32 fnt bgd (v.setCursorX (x - widthFont * v.pixelScale.toNat : ℕ))
      w.setCursorX (w.cursorX.toNat - widthFont * v.pixelScale.toNat) := by
  have hleft : (if widthFont * v.pixelScale.toNat ≤ v.cursorX.toNat then
      v.setCursorX (v.cursorX.toNat - widthFont * v.pixelScale.toNat) else v.setCursorX 0) =
        v.setCursorX (x - widthFont * v.pixelScale.toNat : ℕ) := by
    rw [h.x]
    split
    · rename_i hle
      rw [Nat.cast_sub hle]
      push_cast
      rfl
    · rename_i hle
      rw [Nat.sub_eq_zero_of_le (by omega)]
      rfl
  rw [backspace, hleft]
  dsimp only
  rw [drawChar_pixelScale, setCursorX_pixelScale]

/-- A backspace clears the column before the cursor and leaves the cursor there. -/
lemma backspace_at (h : At v x y) (hx : x - widthFont * v.pixelScale.toNat < info.width.toNat)
    (hw : widthFont * v.pixelScale.toNat ≤ info.width.toNat)
    (hy : y + heightFont * v.pixelScale.toNat ≤ info.height.toNat) :
    At (backspace info font fnt bgd v) (x - widthFont * v.pixelScale.toNat) y ∧
      (OnScreen info (backspace info font fnt bgd v) ↔ OnScreen info v) := by
  have hlt := info.width.toNat_lt
  have hxlt : x < 2 ^ 16 := h.x ▸ v.cursorX.toNat_lt
  have h1 := h.setCursorX (a := (x - widthFont * v.pixelScale.toNat : ℕ)) rfl (by omega)
  have hwrap := wrapLine_of_lt h1 hx
  obtain ⟨h2, hon⟩ := drawChar_at font fnt bgd 32 (h1.wrapLine hx)
    (by rw [setCursorX_pixelScale]; omega)
  rw [setCursorX_pixelScale] at h2 hon
  have hback : ((x - widthFont * v.pixelScale.toNat + widthFont * v.pixelScale.toNat : ℕ) : ℤ) -
      (widthFont : ℤ) * v.pixelScale.toNat = (x - widthFont * v.pixelScale.toNat : ℕ) := by
    push_cast
    ring
  rw [backspace_eq h]
  dsimp only
  rw [h2.x]
  refine ⟨h2.setCursorX hback (by omega), ?_⟩
  rw [onScreen_setCursorX hback (by omega), hon, hwrap, onScreen_setCursorX rfl (by omega),
    and_iff_left hy]

/-- The cursor stands where the layout of the text says. -/
structure Shows (info : ScreenInfo) (s : Spot) (v : VideoDriver) : Prop where
  at_ : At v (s.column * (widthFont * v.pixelScale.toNat))
    (min s.line (lines info v.pixelScale - 1) * (heightFont * v.pixelScale.toNat))
  column : s.column ≤ columns info v.pixelScale

/-- The screen has room for two lines of one character. -/
structure Roomy (info : ScreenInfo) (scale : UInt8) : Prop where
  width : widthFont * scale.toNat ≤ info.width.toNat
  height : 2 * (heightFont * scale.toNat) ≤ info.height.toNat

variable {scale : UInt8} {n : ℕ}

lemma columns_le_iff (info : ScreenInfo) (hs : 0 < scale.toNat) :
    columns info scale ≤ n ↔ info.width.toNat ≤ n * (widthFont * scale.toNat) := by
  rw [columns, ceilDiv_le_iff_le_mul (by rw [widthFont]; omega), mul_comm]

lemma le_lines_iff (hs : 0 < scale.toNat) :
    n ≤ lines info scale ↔ n * (heightFont * scale.toNat) ≤ info.height.toNat :=
  Nat.le_div_iff_mul_le (by rw [heightFont]; omega)

section Layout
variable (hroom : Roomy info v.pixelScale) (hs : 0 < v.pixelScale.toNat)
include hroom hs

lemma two_le_lines : 2 ≤ lines info v.pixelScale := (le_lines_iff hs).mpr hroom.height

lemma columns_pos : 0 < columns info v.pixelScale := by
  by_contra h0
  have hw := (columns_le_iff info (n := 0) hs).mp (by omega)
  have hwidth := hroom.width
  rw [widthFont] at hwidth
  omega

/-- The line of the cursor is on the screen. -/
lemma row_le (line : ℕ) :
    min line (lines info v.pixelScale - 1) * (heightFont * v.pixelScale.toNat) +
      heightFont * v.pixelScale.toNat ≤ info.height.toNat := by
  have h2 := two_le_lines hroom hs
  rw [← Nat.succ_mul]
  exact (le_lines_iff hs).mp (by omega)

lemma next_row_le_iff (line : ℕ) :
    min line (lines info v.pixelScale - 1) * (heightFont * v.pixelScale.toNat) +
      2 * (heightFont * v.pixelScale.toNat) ≤ info.height.toNat ↔
        line + 2 ≤ lines info v.pixelScale := by
  have h2 := two_le_lines hroom hs
  rw [← Nat.add_mul, ← le_lines_iff hs]
  omega

variable (h : Shows info s v)
include h

lemma Shows.newline :
    Shows info ⟨s.line + 1, 0⟩ (newline info v) ∧
      (OnScreen info (newline info v) ↔ OnScreen info v) := by
  have hscale : (VideoDriver.newline info v).pixelScale = v.pixelScale :=
    (Continues.newline v).scale
  have hnext := next_row_le_iff hroom hs s.line
  by_cases hline : s.line + 2 ≤ lines info v.pixelScale
  · obtain ⟨hat, hon⟩ := newline_moves info h.at_ (hnext.mpr hline)
    refine ⟨⟨?_, Nat.zero_le _⟩, hon⟩
    dsimp only
    rw [hscale, zero_mul, min_eq_left (by omega), Nat.succ_mul]
    rwa [min_eq_left (by omega)] at hat
  · have hlow := not_le.mp (mt hnext.mp hline)
    obtain ⟨hat, hon⟩ := newline_scrolls h.at_ (row_le hroom hs s.line) hlow
    refine ⟨⟨?_, Nat.zero_le _⟩, hon⟩
    dsimp only
    rw [hscale, zero_mul, min_eq_right (by omega)]
    rwa [min_eq_right (by omega)] at hat

lemma Shows.backspace (font : ℤ → UInt8) (fnt bgd : Color) :
    Shows info ⟨s.line, s.column - 1⟩ (backspace info font fnt bgd v) ∧
      (OnScreen info (backspace info font fnt bgd v) ↔ OnScreen info v) := by
  have hscale : (VideoDriver.backspace info font fnt bgd v).pixelScale = v.pixelScale :=
    (Continues.backspace v).scale
  have hpos := columns_pos hroom hs
  have hcol := h.column
  have hlt : (s.column - 1) * (widthFont * v.pixelScale.toNat) < info.width.toNat := by
    rw [← not_le, ← columns_le_iff info hs]
    omega
  rw [Nat.sub_mul, one_mul] at hlt
  obtain ⟨hat, hon⟩ := backspace_at h.at_ hlt hroom.width (row_le hroom hs s.line)
  refine ⟨⟨?_, ?_⟩, hon⟩
  · rw [hscale, Nat.sub_mul, one_mul]
    exact hat
  · rw [hscale]
    exact (Nat.sub_le _ _).trans hcol

/-- A character in a column that is free. -/
lemma Shows.fill (font : ℤ → UInt8) (fnt bgd : Color) (c : UInt8)
    (hcol : s.column ≠ columns info v.pixelScale) :
    if 2 ^ 16 ≤ (s.column + 1) * (widthFont * v.pixelScale.toNat) then
      ¬OnScreen info (drawChar info font c fnt bgd v)
    else Shows info ⟨s.line, s.column + 1⟩ (drawChar info font c fnt bgd v) ∧
      (OnScreen info (drawChar info font c fnt bgd v) ↔ OnScreen info v) := by
  have hscale : (drawChar info font c fnt bgd v).pixelScale = v.pixelScale :=
    (Continues.drawChar v c).scale
  have hle := h.column
  have hlt : s.column * (widthFont * v.pixelScale.toNat) < info.width.toNat := by
    rw [← not_le, ← columns_le_iff info hs]
    omega
  have hwrap := wrapLine_of_lt h.at_ hlt
  have hat := h.at_.wrapLine hlt
  rw [Nat.succ_mul]
  split
  · rename_i hfar
    exact drawChar_far hat hfar
  · rename_i hnear
    obtain ⟨hat', hon⟩ := drawChar_at font fnt bgd c hat (by omega)
    rw [hwrap, and_iff_left (row_le hroom hs s.line)] at hon
    refine ⟨⟨?_, ?_⟩, hon⟩
    · rw [hscale, Nat.succ_mul]
      exact hat'
    · rw [hscale]
      dsimp only
      omega

/-- A character behind a full line. -/
lemma Shows.wrap (font : ℤ → UInt8) (fnt bgd : Color) (c : UInt8)
    (hcol : s.column = columns info v.pixelScale) :
    if lines info v.pixelScale ≤ s.line + 1 then ¬OnScreen info (drawChar info font c fnt bgd v)
    else Shows info ⟨s.line + 1, 1⟩ (drawChar info font c fnt bgd v) ∧
      (OnScreen info (drawChar info font c fnt bgd v) ↔ OnScreen info v) := by
  have hscale : (drawChar info font c fnt bgd v).pixelScale = v.pixelScale :=
    (Continues.drawChar v c).scale
  have hwidth := hroom.width
  have hlt := info.width.toNat_lt
  have hpos := columns_pos hroom hs
  have hnext := next_row_le_iff hroom hs s.line
  have hge := (columns_le_iff info hs).mp hcol.ge
  obtain ⟨hat, hon⟩ := wrapLine_at info h.at_ hge (row_le hroom hs s.line)
  obtain ⟨hat', hon'⟩ := drawChar_at font fnt bgd c hat (by omega)
  rw [add_assoc, ← two_mul, hnext, hon] at hon'
  split
  · intro hdraw
    have hline := (hon'.mp hdraw).2
    omega
  · refine ⟨⟨?_, ?_⟩, by rw [hon', and_iff_left (by omega)]⟩
    · dsimp only
      rw [hscale, one_mul, min_eq_left (by omega), Nat.succ_mul]
      rwa [zero_add, min_eq_left (by omega)] at hat'
    · rw [hscale]
      exact hpos

/-- One character: it overruns and is drawn off the screen, or the cursor follows the layout. -/
lemma Shows.print (font : ℤ → UInt8) (p : PrintCall) :
    (Overruns info v.pixelScale s p.c → ¬OnScreen info (print info font v p)) ∧
      (¬Overruns info v.pixelScale s p.c →
        Shows info (s.next (columns info v.pixelScale) p.c) (print info font v p) ∧
          (OnScreen info (print info font v p) ↔ OnScreen info v)) := by
  rw [VideoDriver.print, Spot.next]
  by_cases h10 : p.c = 10
  · rw [if_pos h10, if_pos h10]
    exact ⟨fun hover => absurd h10 hover.2.1, fun _ => h.newline hroom hs⟩
  by_cases h8 : p.c = 8
  · rw [if_neg h10, if_neg h10, if_pos h8, if_pos h8]
    exact ⟨fun hover => absurd h8 hover.2.2.1, fun _ => h.backspace hroom hs font p.fnt p.bgd⟩
  by_cases h0 : p.c = 0
  · rw [if_neg h10, if_neg h10, if_neg h8, if_neg h8, if_pos h0, if_pos h0]
    exact ⟨fun hover => absurd h0 hover.2.2.2.1, fun _ => ⟨h, Iff.rfl⟩⟩
  rw [if_neg h10, if_neg h10, if_neg h8, if_neg h8, if_neg h0, if_neg h0]
  by_cases hcol : s.column = columns info v.pixelScale
  · have hwrap := h.wrap hroom hs font p.fnt p.bgd p.c hcol
    rw [if_pos hcol]
    split at hwrap
    · rename_i hlow
      exact ⟨fun _ => hwrap, fun hover => absurd ⟨hs, h10, h8, h0, .inl ⟨hcol, hlow⟩⟩ hover⟩
    · rename_i hlow
      refine ⟨fun hover => ?_, fun _ => hwrap⟩
      obtain ⟨-, -, -, -, hover | hover⟩ := hover
      · exact absurd hover.2 hlow
      · exact absurd hcol hover.1
  · have hfill := h.fill hroom hs font p.fnt p.bgd p.c hcol
    rw [if_neg hcol]
    split at hfill
    · rename_i hfar
      exact ⟨fun _ => hfill, fun hover => absurd ⟨hs, h10, h8, h0, .inr ⟨hcol, hfar⟩⟩ hover⟩
    · rename_i hfar
      refine ⟨fun hover => ?_, fun _ => hfill⟩
      obtain ⟨-, -, -, -, hover | hover⟩ := hover
      · exact absurd hover.1 hcol
      · exact absurd hover.2 hfar

lemma Shows.printAll (font : ℤ → UInt8) (text : List PrintCall) (hon : OnScreen info v) :
    OnScreen info (printAll info font v text) ↔
      Fits info v.pixelScale s (text.map PrintCall.c) := by
  induction text generalizing v s with
  | nil => exact iff_of_true hon trivial
  | cons p text ih =>
    have hscale : (VideoDriver.print info font v p).pixelScale = v.pixelScale :=
      (Continues.print v p).scale
    obtain ⟨hbad, hgood⟩ := h.print hroom hs font p
    rw [List.map_cons, Fits, VideoDriver.printAll, List.foldl_cons]
    by_cases hover : Overruns info v.pixelScale s p.c
    · refine iff_of_false (fun hall => hbad hover ?_) (fun hfits => hfits.1 hover)
      exact (Continues.printAll (VideoDriver.print info font v p) text).onScreen hall
    · obtain ⟨h', hon'⟩ := hgood hover
      have ih' := ih (v := VideoDriver.print info font v p) (by rwa [hscale]) (by rwa [hscale]) h'
        (hon'.mpr hon)
      rw [hscale, VideoDriver.printAll] at ih'
      rw [ih', and_iff_right hover]

end Layout

section NoSize
variable (hs : v.pixelScale.toNat = 0) (h : At v 0 0)
include hs h

lemma drawChar_noSize (font : ℤ → UInt8) (fnt bgd : Color) (c : UInt8) :
    At (drawChar info font c fnt bgd v) 0 0 ∧
      (OnScreen info (drawChar info font c fnt bgd v) ↔ OnScreen info v) := by
  have hwrap : At (wrapLine info v) 0 0 ∧ (OnScreen info (wrapLine info v) ↔ OnScreen info v) := by
    by_cases hx : 0 < info.width.toNat
    · exact ⟨h.wrapLine hx, by rw [wrapLine_of_lt h hx]⟩
    · have hat := wrapLine_at info h (by omega) (by rw [hs]; omega)
      rwa [hs] at hat
  obtain ⟨hat, hon⟩ := drawChar_at font fnt bgd c hwrap.1 (by rw [hs]; omega)
  rw [hs] at hat hon
  exact ⟨hat, hon.trans (and_iff_left (Nat.zero_le _) |>.trans hwrap.2)⟩

lemma backspace_noSize (font : ℤ → UInt8) (fnt bgd : Color) :
    At (backspace info font fnt bgd v) 0 0 ∧
      (OnScreen info (backspace info font fnt bgd v) ↔ OnScreen info v) := by
  have hleft : ((0 - widthFont * v.pixelScale.toNat : ℕ) : ℤ) = ((0 : ℕ) : ℤ) := by rw [hs]; rfl
  have h0 : At (v.setCursorX (0 - widthFont * v.pixelScale.toNat : ℕ)) 0 0 :=
    h.setCursorX hleft (by omega)
  obtain ⟨hat, hon⟩ := drawChar_noSize (v := v.setCursorX _) hs h0 font fnt bgd 32
  have hback : ((0 : ℕ) : ℤ) - (widthFont : ℤ) * v.pixelScale.toNat = (0 : ℕ) := by rw [hs]; rfl
  rw [backspace_eq h]
  dsimp only
  rw [hat.x]
  refine ⟨hat.setCursorX hback (by omega), ?_⟩
  rw [onScreen_setCursorX hback (by omega), hon, onScreen_setCursorX hleft (by omega)]

lemma print_noSize (info : ScreenInfo) (font : ℤ → UInt8) (p : PrintCall) :
    At (print info font v p) 0 0 ∧ (OnScreen info (print info font v p) ↔ OnScreen info v) := by
  rw [VideoDriver.print]
  split
  · have hat := newline_moves info h (by rw [hs]; omega)
    rwa [hs] at hat
  · split
    · exact backspace_noSize hs h font p.fnt p.bgd
    · split
      · exact ⟨h, Iff.rfl⟩
      · exact drawChar_noSize hs h font p.fnt p.bgd p.c

lemma printAll_noSize (font : ℤ → UInt8) (text : List PrintCall) :
    OnScreen info (printAll info font v text) ↔ OnScreen info v := by
  induction text generalizing v with
  | nil => rfl
  | cons p text ih =>
    have hscale : (print info font v p).pixelScale = v.pixelScale := (Continues.print v p).scale
    obtain ⟨hat, hon⟩ := print_noSize hs h info font p
    exact (ih (by rwa [hscale]) hat).trans hon

end NoSize

lemma fits_noSize {scale : UInt8} (hs : scale.toNat = 0) (s : Spot) (cs : List UInt8) :
    Fits info scale s cs := by
  induction cs generalizing s with
  | nil => trivial
  | cons c cs ih => exact ⟨fun h => by rw [Overruns, hs] at h; omega, ih _⟩

lemma cleared_at (info : ScreenInfo) (scale : UInt8) (x y : UInt16) (mem : ℕ → UInt8) :
    At (cleared info scale x y mem) 0 0 := ⟨rfl, rfl⟩

lemma cleared_onScreen (info : ScreenInfo) (scale : UInt8) (x y : UInt16) (mem : ℕ → UInt8) :
    OnScreen info (cleared info scale x y mem) := by
  refine ⟨rfl, fun p hp => ?_⟩
  rw [show (cleared info scale x y mem).drawn = [] from rfl] at hp
  exact absurd hp List.not_mem_nil

lemma cleared_shows (info : ScreenInfo) (scale : UInt8) (x y : UInt16) (mem : ℕ → UInt8) :
    Shows info ⟨0, 0⟩ (cleared info scale x y mem) := by
  have hat := cleared_at info scale x y mem
  refine ⟨?_, Nat.zero_le _⟩
  dsimp only
  rwa [zero_mul, Nat.zero_min, zero_mul]

/-- Printing to a cleared screen stays on it exactly when no character of the text overruns. -/
theorem printAll_onScreen_iff (font : ℤ → UInt8) (scale : UInt8) (hroom : Roomy info scale)
    (x y : UInt16) (mem : ℕ → UInt8) (text : List PrintCall) :
    OnScreen info (printAll info font (cleared info scale x y mem) text) ↔
      Fits info scale ⟨0, 0⟩ (text.map PrintCall.c) := by
  have hat := cleared_at info scale x y mem
  have hon := cleared_onScreen info scale x y mem
  have hscale : (cleared info scale x y mem).pixelScale = scale := rfl
  by_cases hs : scale.toNat = 0
  · exact iff_of_true ((printAll_noSize hs hat font text).mpr hon) (fits_noSize hs _ _)
  · exact (cleared_shows info scale x y mem).printAll hroom (Nat.pos_of_ne_zero hs) font text hon

/-- A screen of 1024 by 768 pixels, three bytes each. -/
def xga : ScreenInfo := ⟨3072, 1024, 768, 24, 0xfd000000⟩

def whiteOnBlack (s : List UInt8) : List PrintCall := s.map fun c => ⟨c, ⟨255, 255, 255⟩, .black⟩

theorem printAll_onScreen_hello :
    Roomy xga 1 ∧ OnScreen xga (printAll xga (fun _ => 0) (cleared xga 1 5 5 fun _ => 0)
      (whiteOnBlack [104, 10, 105, 8])) := by
  have hroom : Roomy xga 1 := ⟨by decide, by decide⟩
  refine ⟨hroom, (printAll_onScreen_iff _ 1 hroom 5 5 _ _).mpr ?_⟩
  decide

/-- At the largest scale 23 letters fill a line, and on the last line the next one is drawn below
the screen. -/
theorem full_last_line_leaves_screen :
    ¬∀ (info : ScreenInfo) (font : ℤ → UInt8) (scale : UInt8), Roomy info scale →
      ∀ (x y : UInt16) (mem : ℕ → UInt8) (text : List PrintCall),
        (∀ p ∈ text, p.c = 10 ∨ p.c = 8 ∨ 32 ≤ p.c ∧ p.c < 127) →
          OnScreen info (printAll info font (cleared info scale x y mem) text) := by
  intro h
  have hroom : Roomy xga 5 := ⟨by decide, by decide⟩
  have hon := h xga (fun _ => 0) 5 hroom 0 0 (fun _ => 0)
    (whiteOnBlack (List.replicate 8 10 ++ List.replicate 24 97)) (by decide)
  have hfits := ((cleared_shows xga 5 0 0 fun _ => 0).printAll hroom (by decide) (fun _ => 0) _
    (cleared_onScreen xga 5 0 0 fun _ => 0)).mp hon
  revert hfits
  decide +kernel

end TP2Kernel.Proofs
