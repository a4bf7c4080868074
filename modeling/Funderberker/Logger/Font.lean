import Funderberker.Base

/-!
# The bitmap font

The font of `logger/src/framebuffer.rs`: 256 glyphs of sixteen rows of eight pixels.  The
source has an array of sixteen bytes for each glyph; here a glyph is one number with these
bytes, the top row first.

The shape of the glyphs decides which pixels of a cell can be drawn.  No glyph has a pixel in
the last row, and there are glyphs with pixels in the last column and in the row before the
last.
-/

namespace Funderberker

/-- The glyphs, each as its sixteen rows. -/
def BITMAP_FONT_8X16 : List ℕ :=
  [ 0x00000000000000000000000000000000, 0x00000000000000000000000000000000,
    0x00000000000000000000000000000000, 0x00000000000000000000000000000000,
    0x00000000000000000000000000000000, 0x00000000000000000000000000000000,
    0x00000000000000000000000000000000, 0x00000000000000000000000000000000,
    0x00000000000000000000000000000000, 0x00000000000000000000000000000000,
    0x00000000000000000000000000000000, 0x00000000000000000000000000000000,
    0x00000000000000000000000000000000, 0x00000000000000000000000000000000,
    0x00000000000000000000000000000000, 0x00000000000000000000000000000000,
    0x00000000000000000000000000000000, 0x00000000000000000000000000000000,
    0x00000000000000000000000000000000, 0x00000000000000000000000000000000,
    0x00000000000000000000000000000000, 0x00000000000000000000000000000000,
    0x00000000000000000000000000000000, 0x00000000000000000000000000000000,
    0x00000000000000000000000000000000, 0x00000000000000000000000000000000,
    0x00000000000000000000000000000000, 0x00000000000000000000000000000000,
    0x00000000000000000000000000000000, 0x00000000000000000000000000000000,
    0x00000000000000000000000000000000, 0x00000000000000000000000000000000,
    0x00000000000000000000000000000000, 0x00001818181818181800181800000000,
    0x00006c6c360000000000000000000000, 0x00000036367f36367f36360000000000,
    0x0008083e6b0b0b3e68686b3e08080000, 0x000000331318080c0406323300000000,
    0x00001c36361c6c3e33337bce00000000, 0x000018180c0000000000000000000000,
    0x00003018180c0c0c0c0c181830000000, 0x00000c1818303030303018180c000000,
    0x0000000000361c7f1c36000000000000, 0x000000000018187e1818000000000000,
    0x0000000000000000000018180c000000, 0x000000000000007e0000000000000000,
    0x00000000000000000000181800000000, 0x00006020301018080c04060203000000,
    0x00003e6363636b6b6363633e00000000, 0x0000181e181818181818181800000000,
    0x00003e63606030180c06037f00000000, 0x00003e6360603c606060633e00000000,
    0x000030383c36337f3030303000000000, 0x00007f03033f60606060633e00000000,
    0x00003c0603033f636363633e00000000, 0x00007f6030301818180c0c0c00000000,
    0x00003e6363633e636363633e00000000, 0x00003e6363637e606060301e00000000,
    0x00000000001818000000181800000000, 0x0000000000181800000018180c000000,
    0x00006030180c06060c18306000000000, 0x00000000007e00007e00000000000000,
    0x0000060c1830606030180c0600000000, 0x00003e63603030181800181800000000,
    0x00003c66737b6b6b7b33063c00000000, 0x00003e6363637f636363636300000000,
    0x00003f6363633f636363633f00000000, 0x00003c66030303030303663c00000000,
    0x00001f33636363636363331f00000000, 0x00007f0303033f030303037f00000000,
    0x00007f0303033f030303030300000000, 0x00003c66030303736363667c00000000,
    0x0000636363637f636363636300000000, 0x00003c18181818181818183c00000000,
    0x00003030303030303030331e00000000, 0x000063331b0f07070f1b336300000000,
    0x00000303030303030303037f00000000, 0x00006363777f7f6b6b63636300000000,
    0x00006363676f6f7b7b73636300000000, 0x00003e63636363636363633e00000000,
    0x00003f636363633f0303030300000000, 0x00003e6363636363636f7b3e30600000,
    0x00003f636363633f1b33636300000000, 0x00003e6303030e386060633e00000000,
    0x00007e18181818181818181800000000, 0x00006363636363636363633e00000000,
    0x0000636363636336361c1c0800000000, 0x000063636b6b6b6b7f36363600000000,
    0x0000636336361c1c3636636300000000, 0x0000c3c366663c3c1818181800000000,
    0x00007f303018180c0c06067f00000000, 0x00003c0c0c0c0c0c0c0c0c3c00000000,
    0x0000030206040c081810302060000000, 0x00003c30303030303030303c00000000,
    0x00081c36630000000000000000000000, 0x00000000000000000000000000ff0000,
    0x00000c0c180000000000000000000000, 0x00000000003e607e6363736e00000000,
    0x00000303033b67636363673b00000000, 0x00000000003e63030303633e00000000,
    0x00006060606e73636363736e00000000, 0x00000000003e63637f03633e00000000,
    0x00003c66061f06060606060600000000, 0x00000000006e73636363736e60633e00,
    0x00000303033b67636363636300000000, 0x00000c0c000c0c0c0c0c0c3800000000,
    0x00003030003030303030303030331e00, 0x000003030363331b0f1f336300000000,
    0x00000c0c0c0c0c0c0c0c0c3800000000, 0x0000000000356b6b6b6b6b6b00000000,
    0x00000000003b67636363636300000000, 0x00000000003e63636363633e00000000,
    0x00000000003b67636363673b03030300, 0x00000000006e73636363736e60e06000,
    0x00000000003b67030303030300000000, 0x00000000003e630e3860633e00000000,
    0x0000000c0c3e0c0c0c0c0c3800000000, 0x00000000006363636363736e00000000,
    0x0000000000636336361c1c0800000000, 0x0000000000636b6b6b3e363600000000,
    0x000000000063361c1c1c366300000000, 0x0000000000636336361c1c0c0c060300,
    0x00000000007f6030180c067f00000000, 0x000070181818180e1818181870000000,
    0x00181818181818181818181818000000, 0x00000e1818181870181818180e000000,
    0x0000000000006e3b0000000000000000, 0x00000000000000000000000000000000,
    0x00000000000000000000000000000000, 0x00000000000000000000000000000000,
    0x00000000000000000000000000000000, 0x00000000000000000000000000000000,
    0x00000000000000000000000000000000, 0x00000000000000000000000000000000,
    0x00000000000000000000000000000000, 0x00000000000000000000000000000000,
    0x00000000000000000000000000000000, 0x00000000000000000000000000000000,
    0x00000000000000000000000000000000, 0x00000000000000000000000000000000,
    0x00000000000000000000000000000000, 0x00000000000000000000000000000000,
    0x00000000000000000000000000000000, 0x00000000000000000000000000000000,
    0x00000000000000000000000000000000, 0x00000000000000000000000000000000,
    0x00000000000000000000000000000000, 0x00000000000000000000000000000000,
    0x00000000000000000000000000000000, 0x00000000000000000000000000000000,
    0x00000000000000000000000000000000, 0x00000000000000000000000000000000,
    0x00000000000000000000000000000000, 0x00000000000000000000000000000000,
    0x00000000000000000000000000000000, 0x00000000000000000000000000000000,
    0x00000000000000000000000000000000, 0x00000000000000000000000000000000,
    0x00000000000000000000000000000000, 0x00000000000000000000000000000000,
    0x00000000000000000000000000000000, 0x00000000181800181818181818180000,
    0x00000008083e6b0b0b0b6b3e08080000, 0x00001c3606061f0606076f3b00000000,
    0x00000000663c6666663c660000000000, 0x0000c3c366663c7e187e181800000000,
    0x00001818181800001818181800000000, 0x003c660c1e3363663c18331e00000000,
    0x00003636000000000000000000000000, 0x00003c4299a585a599423c0000000000,
    0x001e303e333b36003f00000000000000, 0x00000000006c361b1b366c0000000000,
    0x0000000000007f606060000000000000, 0x000000000000003c0000000000000000,
    0x00003c429da59da5a5423c0000000000, 0x007e0000000000000000000000000000,
    0x00001c36361c00000000000000000000, 0x0000000018187e1818007e0000000000,
    0x001e33180c063f000000000000000000, 0x001e331830331e000000000000000000,
    0x0030180c000000000000000000000000, 0x00000000006666666666766e06060300,
    0x00007e2f2f2f2e282828282800000000, 0x00000000000000181800000000000000,
    0x00000000000000000000000018301e00, 0x000c0e0c0c0c1e000000000000000000,
    0x001e333333331e003f00000000000000, 0x00000000001b366c6c361b0000000000,
    0x00101c181818007f00181c1a3e180000, 0x00101c181818007f001c36180c3e0000,
    0x001c3618361c007f00181c1a3e180000, 0x000000000c0c000c0c060603633e0000,
    0x0c183e6363637f636363636300000000, 0x180c3e6363637f636363636300000000,
    0x08143e6363637f636363636300000000, 0x6e3b3e6363637f636363636300000000,
    0x36003e6363637f636363636300000000, 0x1c363e6363637f636363636300000000,
    0x0000fe333333ff33333333f300000000, 0x00003c66030303030303663c18301e00,
    0x0c187f0303033f030303037f00000000, 0x180c7f0303033f030303037f00000000,
    0x08147f0303033f030303037f00000000, 0x36007f0303033f030303037f00000000,
    0x0c183c18181818181818183c00000000, 0x30183c18181818181818183c00000000,
    0x18243c18181818181818183c00000000, 0x66003c18181818181818183c00000000,
    0x00001e3666666f666666361e00000000, 0x6e3b6363676f6f7b7b73636300000000,
    0x060c3e63636363636363633e00000000, 0x30183e63636363636363633e00000000,
    0x08143e63636363636363633e00000000, 0x6e3b3e63636363636363633e00000000,
    0x36003e63636363636363633e00000000, 0x0000000000663c183c66000000000000,
    0x00203e73736b6b6b6b67673e02000000, 0x0c186363636363636363633e00000000,
    0x180c6363636363636363633e00000000, 0x08146363636363636363633e00000000,
    0x36006363636363636363633e00000000, 0x3018c3c366663c3c1818181800000000,
    0x00000f063e666666663e060f00000000, 0x00001e33331b33636363633b00000000,
    0x000c1830003e607e6363736e00000000, 0x0030180c003e607e6363736e00000000,
    0x00081c36003e607e6363736e00000000, 0x00006e3b003e607e6363736e00000000,
    0x00003636003e607e6363736e00000000, 0x001c361c003e607e6363736e00000000,
    0x00000000006edbd8fe1bdb7600000000, 0x00000000003e63030303633e18301e00,
    0x000c1830003e63637f03633e00000000, 0x0030180c003e63637f03633e00000000,
    0x00081c36003e63637f03633e00000000, 0x00003636003e63637f03633e00000000,
    0x00060c18000c0c0c0c0c0c3800000000, 0x00180c06000c0c0c0c0c0c3800000000,
    0x00081c36000c0c0c0c0c0c3800000000, 0x00003636000c0c0c0c0c0c3800000000,
    0x00002c1834607c666666663c00000000, 0x00006e3b003b67636363636300000000,
    0x00060c18003e63636363633e00000000, 0x0030180c003e63636363633e00000000,
    0x00081c36003e63636363633e00000000, 0x00006e3b003e63636363633e00000000,
    0x00003636003e63636363633e00000000, 0x000000001818007e0018180000000000,
    0x00000000203e736b6b6b673e02000000, 0x00060c18006363636363736e00000000,
    0x0030180c006363636363736e00000000, 0x00081c36006363636363736e00000000,
    0x00003636006363636363736e00000000, 0x0030180c00636336361c1c0c0c060300,
    0x00000f06063e66666666663e06060f00, 0x0000363600636336361c1c0c0c060300]

/-- The row `y` of a glyph. -/
def fontRow (index y : ℕ) : ℕ := (BITMAP_FONT_8X16.getD index 0 >>> (8 * (15 - y))) % 256

/-- The pixels of a glyph, row by row. -/
def glyphPixels (index : ℕ) : List (ℕ × ℕ) :=
  (List.range 16).flatMap fun y =>
    ((List.range 8).filter fun x => (fontRow index y).testBit x).map fun x => (x, y)

theorem mem_glyphPixels {index x y : ℕ} :
    (x, y) ∈ glyphPixels index ↔ x < 8 ∧ y < 16 ∧ (fontRow index y).testBit x = true := by
  simp [glyphPixels]
  tauto

/-- There is a glyph for each byte. -/
theorem length_font : BITMAP_FONT_8X16.length = 256 := by decide +kernel

/-- The last row of every glyph is blank. -/
theorem fontRow_last (index : ℕ) : fontRow index 15 = 0 := by
  have hall : ∀ glyph ∈ BITMAP_FONT_8X16, glyph % 256 = 0 := by decide +kernel
  rw [fontRow, Nat.sub_self, Nat.mul_zero, Nat.shiftRight_zero, List.getD_eq_getElem?_getD]
  cases hget : BITMAP_FONT_8X16[index]? with
  | none => rfl
  | some glyph => exact hall glyph (List.mem_of_getElem? hget)

end Funderberker
