import TP2Kernel.Lib.CString

/-!
# The text screen

`videoDriver.c`: the cursor in 16-bit fields, the glyphs drawn at it and the pixels in the frame
buffer. Beside the variables of the driver the state records where glyphs were drawn and whether
every value assigned to a cursor fitted its field.
-/

namespace TP2Kernel
open CString

/-- `Color`. -/
structure Color where
  b : UInt8
  g : UInt8
  r : UInt8
  deriving DecidableEq, Repr

def Color.black : Color := ⟨0, 0, 0⟩

/-- What the driver reads of `vbe_mode_info_structure`. -/
structure ScreenInfo where
  pitch : UInt16
  width : UInt16
  height : UInt16
  bpp : UInt8
  framebuffer : UInt32
  deriving DecidableEq, Repr

/-- `WIDTH_FONT`. -/
def widthFont : Nat := 9

/-- `HEIGHT_FONT`. -/
def heightFont : Nat := 16

structure VideoDriver where
  pixelScale : UInt8
  cursorX : UInt16
  cursorY : UInt16
  mem : Nat → UInt8
  drawn : List (UInt16 × UInt16)
  inRange : Bool

namespace VideoDriver

/-- `getRealCharWidth`. -/
def getRealCharWidth (v : VideoDriver) : UInt16 := UInt16.ofNat (widthFont * v.pixelScale.toNat)

/-- `getRealCharHeight`. -/
def getRealCharHeight (v : VideoDriver) : UInt16 := UInt16.ofNat (heightFont * v.pixelScale.toNat)

/-- Assign the value of an expression to `cursorX`. -/
def setCursorX (v : VideoDriver) (x : Int) : VideoDriver :=
  { v with
    cursorX := UInt16.ofInt x
    inRange := v.inRange && decide (0 ≤ x ∧ x < 2 ^ 16) }

/-- Assign the value of an expression to `cursorY`. -/
def setCursorY (v : VideoDriver) (y : Int) : VideoDriver :=
  { v with
    cursorY := UInt16.ofInt y
    inRange := v.inRange && decide (0 ≤ y ∧ y < 2 ^ 16) }

/-- `getPixelPtr`. -/
def getPixelPtr (info : ScreenInfo) (x y : UInt16) : Nat :=
  info.framebuffer.toNat + x.toNat * (info.bpp.toNat / 8) + y.toNat * info.pitch.toNat

/-- Store a colour at an address. -/
def putColor (mem : Nat → UInt8) (a : Nat) (color : Color) : Nat → UInt8 :=
  put mem a [color.b, color.g, color.r]

/-- The colour at an address. -/
def colorAt (mem : Nat → UInt8) (a : Nat) : Color := ⟨mem a, mem (a + 1), mem (a + 2)⟩

/-- `vDriver_setPixel`. -/
def setPixel (info : ScreenInfo) (mem : Nat → UInt8) (x y : UInt16) (color : Color) :
    Nat → UInt8 :=
  if info.width ≤ x ∨ info.height ≤ y then mem else putColor mem (getPixelPtr info x y) color

/-- `scrollUp`. -/
def scrollUp (info : ScreenInfo) (v : VideoDriver) : VideoDriver :=
  let height := heightFont * v.pixelScale.toNat
  { v with
    mem := (List.range (v.cursorY.toNat + height)).foldl (fun mem i =>
      (List.range info.width.toNat).foldl (fun mem j =>
        let next := getPixelPtr info (UInt16.ofNat j) (UInt16.ofNat (i + height))
        putColor mem (getPixelPtr info (UInt16.ofNat j) (UInt16.ofNat i)) (colorAt mem next))
        mem) v.mem }

/-- The loops of `drawChar` over the pixels of a glyph, which starts at `glyph` in the font. -/
def drawGlyph (info : ScreenInfo) (font : Int → UInt8) (glyph : Int) (fnt bgd : Color)
    (v : VideoDriver) : VideoDriver :=
  let scale := v.pixelScale.toNat
  let x := v.cursorX.toNat
  let y := v.cursorY.toNat
  { v with
    drawn := v.drawn ++ [(v.cursorX, v.cursorY)]
    mem := (List.range 16).foldl (fun mem (cy : Nat) =>
      (List.range 8).foldl (fun mem cx =>
        let color := if (font (glyph + cy)).toNat.testBit cx then fnt else bgd
        (List.range scale).foldl (fun mem i =>
          (List.range scale).foldl (fun mem j =>
            setPixel info mem (UInt16.ofNat (x + (8 - cx) * scale + i))
              (UInt16.ofNat (y + cy * scale + j)) color) mem) mem) mem) v.mem }

/-- The test of `drawChar` for the end of the line and the end of the screen. -/
def wrapLine (info : ScreenInfo) (v : VideoDriver) : VideoDriver :=
  if info.width ≤ v.cursorX then
    let v := v.setCursorX 0
    if info.height.toNat < v.cursorY.toNat + v.getRealCharHeight.toNat then
      scrollUp info (v.setCursorY (v.cursorY.toNat - v.getRealCharHeight.toNat))
    else v.setCursorY (v.cursorY.toNat + v.getRealCharHeight.toNat)
  else v

/-- `drawChar`. -/
def drawChar (info : ScreenInfo) (font : Int → UInt8) (c : UInt8) (fnt bgd : Color)
    (v : VideoDriver) : VideoDriver :=
  let v := drawGlyph info font (16 * (c.toNat - 32)) fnt bgd (wrapLine info v)
  v.setCursorX (v.cursorX.toNat + v.getRealCharWidth.toNat)

/-- `vDriver_newline`. -/
def newline (info : ScreenInfo) (v : VideoDriver) : VideoDriver :=
  let v := v.setCursorX 0
  let v := v.setCursorY (v.cursorY.toNat + heightFont * v.pixelScale.toNat)
  if info.height.toNat < v.cursorY.toNat + heightFont * v.pixelScale.toNat then
    scrollUp info (v.setCursorY (v.cursorY.toNat - heightFont * v.pixelScale.toNat))
  else v

/-- `vDriver_backspace`. -/
def backspace (info : ScreenInfo) (font : Int → UInt8) (fnt bgd : Color) (v : VideoDriver) :
    VideoDriver :=
  let v :=
    if widthFont * v.pixelScale.toNat ≤ v.cursorX.toNat then
      v.setCursorX (v.cursorX.toNat - widthFont * v.pixelScale.toNat)
    else v.setCursorX 0
  let v := drawChar info font 32 fnt bgd v
  v.setCursorX (v.cursorX.toNat - widthFont * v.pixelScale.toNat)

/-- `vDriver_clear`. -/
def clear (info : ScreenInfo) (v : VideoDriver) : VideoDriver :=
  let v := { v with
    mem := (List.range (info.width.toNat * info.height.toNat)).foldl (fun mem k =>
      putColor mem (info.framebuffer.toNat + 3 * k) Color.black) v.mem }
  (v.setCursorX 0).setCursorY 0

/-- The arguments of a call of `vDriver_print`. -/
structure PrintCall where
  c : UInt8
  fnt : Color
  bgd : Color

/-- `vDriver_print`. -/
def print (info : ScreenInfo) (font : Int → UInt8) (v : VideoDriver) (p : PrintCall) :
    VideoDriver :=
  if p.c = 10 then newline info v
  else if p.c = 8 then backspace info font p.fnt p.bgd v
  else if p.c = 0 then v
  else drawChar info font p.c p.fnt p.bgd v

/-- One call of `vDriver_print` after the other. -/
def printAll (info : ScreenInfo) (font : Int → UInt8) (v : VideoDriver) (text : List PrintCall) :
    VideoDriver :=
  text.foldl (print info font) v

/-- A cleared screen, with any contents of the frame buffer and any cursor before. -/
def cleared (info : ScreenInfo) (scale : UInt8) (x y : UInt16) (mem : Nat → UInt8) : VideoDriver :=
  clear info ⟨scale, x, y, mem, [], true⟩

/-- Every glyph was drawn on the screen, and no cursor left its field. -/
def OnScreen (info : ScreenInfo) (v : VideoDriver) : Prop :=
  v.inRange = true ∧
    ∀ p ∈ v.drawn, p.2.toNat + heightFont * v.pixelScale.toNat ≤ info.height.toNat

instance (info : ScreenInfo) (v : VideoDriver) : Decidable (OnScreen info v) :=
  inferInstanceAs (Decidable (_ ∧ _))

end VideoDriver

end TP2Kernel
