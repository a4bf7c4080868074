import Funderberker.Logger.Font

/-!
# The framebuffer logger

`logger/src/framebuffer.rs`: characters are drawn in cells of eight by sixteen pixels, and a
cursor moves from cell to cell until it leaves the screen at the bottom.  The limits of the
cursor are tested against the size of the screen in pixels, so that a cell at the right or at
the bottom may be only partly on the screen.

What is drawn is kept also when a computation overflows in a build that checks.

## Main definitions

* `FramebufferWriter`, `drawPixel`, `drawChar`.
* `drawChars` — a sequence of characters.
* `RawFramebuffer.WholeCells` — no cell has a pixel of a glyph outside the screen.

## Main results

* `pixels_inside_iff` — every pixel is on the screen if and only if the cells are whole.
-/

namespace Funderberker

open Panicking

inductive FramebufferError
  | invalidCharacter
  deriving DecidableEq, Repr

structure RawFramebuffer where
  width : ℕ
  height : ℕ
  /-- Bytes for each line. -/
  pitch : ℕ
  /-- Bits for each pixel. -/
  bpp : ℕ
  deriving DecidableEq, Repr

structure FramebufferWriter where
  framebuffer : RawFramebuffer
  currY : ℕ
  currX : ℕ
  disabled : Bool
  deriving DecidableEq, Repr

/-- A pixel that has been drawn, with the offset of the bytes that were written. -/
structure Pixel where
  x : ℕ
  y : ℕ
  offset : ℕ
  deriving DecidableEq, Repr

namespace FramebufferWriter

variable (m : Overflow) (w : FramebufferWriter)

def new (framebuffer : RawFramebuffer) : FramebufferWriter := ⟨framebuffer, 0, 0, false⟩

def drawPixel (x y : ℕ) : Except Panic Pixel := do
  let line ← Usize.mul m y w.framebuffer.pitch
  let column ← Usize.mul m x (w.framebuffer.bpp / 8)
  let offset ← Usize.add m column line
  .ok ⟨x, y, offset⟩

/-- A pixel of a glyph in the cell of the cursor. -/
def drawInCell (x y : ℕ) : Except Panic Pixel := do
  let x ← Usize.add m x w.currX
  let y ← Usize.add m y w.currY
  w.drawPixel m x y

def scrollY : Except Panic FramebufferWriter := do
  let currY ← Usize.add m w.currY 16
  .ok { w with currY := currY, disabled := w.disabled || decide (currY ≥ w.framebuffer.height) }

/-- The code of the newline character. -/
def NEWLINE : ℕ := 10

def scrollX (character : ℕ) : Except Panic FramebufferWriter := do
  let currX ← Usize.add m w.currX 8
  if currX ≥ w.framebuffer.width ∨ character = NEWLINE then
    scrollY m { w with currX := 0 }
  else .ok { w with currX := currX }

/-- Draw pixels until one cannot be; returns those that were drawn. -/
def drawPixels : List (ℕ × ℕ) → List Pixel × Except Panic Unit
  | [] => ([], .ok ())
  | (x, y) :: rest =>
      match w.drawInCell m x y with
      | .error e => ([], .error e)
      | .ok p => (p :: (drawPixels rest).1, (drawPixels rest).2)

/-- Returns the pixels that were drawn. -/
def drawChar (character : ℕ) :
    List Pixel × Except Panic (Except FramebufferError Unit × FramebufferWriter) :=
  if w.disabled then ([], .ok (.ok (), w))
  else if character ≥ BITMAP_FONT_8X16.length then ([], .ok (.error .invalidCharacter, w))
  else
    let drawn := w.drawPixels m (glyphPixels character)
    (drawn.1, do
      drawn.2
      let w ← w.scrollX m character
      .ok (.ok (), w))

/-- Characters one after another. -/
def drawChars : List ℕ → FramebufferWriter → List Pixel × Except Panic FramebufferWriter
  | [], w => ([], .ok w)
  | c :: cs, w =>
      match w.drawChar m c with
      | (drawn, .error e) => (drawn, .error e)
      | (drawn, .ok (_, w)) => (drawn ++ (drawChars cs w).1, (drawChars cs w).2)

end FramebufferWriter

/-! ## Geometry -/

namespace RawFramebuffer

/-- A geometry of 32-bit pixels, in 64-bit numbers. -/
structure Proper (fb : RawFramebuffer) : Prop where
  width_pos : 1 ≤ fb.width
  height_pos : 1 ≤ fb.height
  bpp : fb.bpp = 32
  pitch : fb.width * (fb.bpp / 8) ≤ fb.pitch
  height_lt : fb.height < 2 ^ 64
  pitch_lt : fb.pitch < 2 ^ 64

/-- The cells fill the lines, and the last row of cells is on the screen but for the last
line of pixels, which is blank in every glyph. -/
def WholeCells (fb : RawFramebuffer) : Prop :=
  fb.width % 8 = 0 ∧ (fb.height % 16 = 0 ∨ fb.height % 16 = 15)

/-- A pixel on the screen, whose four bytes are in the buffer. -/
def Inside (fb : RawFramebuffer) (p : Pixel) : Prop :=
  p.x < fb.width ∧ p.y < fb.height ∧ p.offset + 4 ≤ fb.pitch * fb.height

end RawFramebuffer

/-! ## The cursor -/

namespace FramebufferWriter

variable {m : Overflow} {w w' : FramebufferWriter} {fb : RawFramebuffer} {c x y : ℕ}

/-- The cursor is at a cell whose corner is on the screen, unless the writer is disabled. -/
structure AtCell (fb : RawFramebuffer) (w : FramebufferWriter) : Prop where
  framebuffer : w.framebuffer = fb
  column : w.currX % 8 = 0
  left : w.currX < fb.width
  row : w.currY % 16 = 0
  top : w.disabled = false → w.currY < fb.height

theorem width_lt (hfb : fb.Proper) : fb.width < 2 ^ 62 := by
  have hpitch := hfb.pitch
  have hlt := hfb.pitch_lt
  rw [hfb.bpp] at hpitch
  omega

theorem atCell_new (hfb : fb.Proper) : AtCell fb (new fb) :=
  ⟨rfl, rfl, hfb.width_pos, rfl, fun _ => hfb.height_pos⟩

/-- The cursor moves to a cell. -/
theorem AtCell.scrollX (hfb : fb.Proper) (h : AtCell fb w) (hrun : w.scrollX m c = .ok w') :
    AtCell fb w' := by
  have hwidth := width_lt hfb
  have hleft := h.left
  have hcolumn := h.column
  rw [FramebufferWriter.scrollX, Usize.add_eq (by omega), ok_bind] at hrun
  split at hrun
  case isTrue =>
      obtain ⟨currY, hadd, hrun⟩ := bind_eq_ok.mp hrun
      obtain rfl := Except.ok.inj hrun
      have hcurrY := (Usize.add_spec m w.currY 16).post hadd
      have hrow := h.row
      refine ⟨h.framebuffer, rfl, hfb.width_pos, ?_, fun henabled => ?_⟩
      · dsimp only
        omega
      · simp only [Bool.or_eq_false_iff, decide_eq_false_iff_not, h.framebuffer] at henabled
        exact not_le.mp henabled.2
  case isFalse hstay =>
      obtain rfl := Except.ok.inj hrun
      rw [h.framebuffer, not_or] at hstay
      refine ⟨h.framebuffer, ?_, not_le.mp hstay.1, h.row, h.top⟩
      dsimp only
      omega

/-! ## Whole cells -/

theorem mem_drawPixels {l : List (ℕ × ℕ)} {p : Pixel} (hp : p ∈ (w.drawPixels m l).1) :
    ∃ q ∈ l, w.drawInCell m q.1 q.2 = .ok p := by
  induction l with
  | nil => cases hp
  | cons q l ih =>
      obtain ⟨x, y⟩ := q
      rw [drawPixels] at hp
      cases hrun : w.drawInCell m x y with
      | error e =>
          rw [hrun] at hp
          cases hp
      | ok p' =>
          rw [hrun] at hp
          rcases List.mem_cons.mp hp with rfl | hp
          · exact ⟨(x, y), List.mem_cons_self, hrun⟩
          · obtain ⟨q, hq, hrun⟩ := ih hp
            exact ⟨q, List.mem_cons_of_mem _ hq, hrun⟩

/-- A pixel of a glyph is not in the last row of its cell. -/
theorem bounds_of_mem_glyphPixels (h : (x, y) ∈ glyphPixels c) : x < 8 ∧ y < 15 := by
  obtain ⟨hx, hy, hbit⟩ := mem_glyphPixels.mp h
  refine ⟨hx, ?_⟩
  by_contra hlast
  obtain rfl : y = 15 := by omega
  rw [fontRow_last, Nat.zero_testBit] at hbit
  cases hbit

/-- In a whole cell a pixel of a glyph is on the screen. -/
theorem drawInCell_inside (hfb : fb.Proper) (hcells : fb.WholeCells) (h : AtCell fb w)
    (henabled : w.disabled = false) (hx : x < 8) (hy : y < 15) {p : Pixel}
    (hrun : w.drawInCell m x y = .ok p) : fb.Inside p := by
  have hwidth := width_lt hfb
  have hheight := hfb.height_lt
  have hpx : x + w.currX < fb.width := by
    have := h.column
    have := h.left
    have := hcells.1
    omega
  have hpy : y + w.currY < fb.height := by
    have := h.row
    have := h.top henabled
    have := hcells.2
    omega
  rw [drawInCell, Usize.add_eq (by omega), ok_bind, Usize.add_eq (by omega), ok_bind, drawPixel,
    h.framebuffer, hfb.bpp] at hrun
  obtain ⟨line, hline, hrun⟩ := bind_eq_ok.mp hrun
  obtain ⟨column, hcolumn, hrun⟩ := bind_eq_ok.mp hrun
  obtain ⟨offset, hoffset, hrun⟩ := bind_eq_ok.mp hrun
  obtain rfl := Except.ok.inj hrun
  have hline' := (Usize.mul_spec m _ _).post hline
  have hcolumn' := (Usize.mul_spec m _ _).post hcolumn
  have hoffset' := (Usize.add_spec m _ _).post hoffset
  refine ⟨hpx, hpy, ?_⟩
  -- The line of the pixel is one of the lines of the buffer.
  have hlines : (y + w.currY) * fb.pitch + fb.pitch ≤ fb.pitch * fb.height := by
    rw [← Nat.succ_mul, Nat.mul_comm]
    exact Nat.mul_le_mul_left _ hpy
  have hpitch := hfb.pitch
  rw [hfb.bpp] at hpitch
  dsimp only
  omega

theorem drawChar_inside (hfb : fb.Proper) (hcells : fb.WholeCells) (h : AtCell fb w) :
    (∀ p ∈ (w.drawChar m c).1, fb.Inside p) ∧
      ∀ res w', (w.drawChar m c).2 = .ok (res, w') → AtCell fb w' := by
  rw [drawChar]
  cases hdisabled : w.disabled with
  | true => exact ⟨nofun, fun res w' hres => (Prod.mk.inj (Except.ok.inj hres)).2 ▸ h⟩
  | false =>
      rw [if_neg Bool.false_ne_true]
      split
      case isTrue => exact ⟨nofun, fun res w' hres => (Prod.mk.inj (Except.ok.inj hres)).2 ▸ h⟩
      case isFalse =>
          refine ⟨fun p hp => ?_, fun res w' hres => ?_⟩
          · obtain ⟨⟨x, y⟩, hq, hrun⟩ := mem_drawPixels hp
            obtain ⟨hx, hy⟩ := bounds_of_mem_glyphPixels hq
            exact drawInCell_inside hfb hcells h hdisabled hx hy hrun
          · obtain ⟨_, -, hres⟩ := bind_eq_ok.mp hres
            obtain ⟨w₁, hscroll, hres⟩ := bind_eq_ok.mp hres
            obtain ⟨-, rfl⟩ := Prod.mk.inj (Except.ok.inj hres)
            exact h.scrollX hfb hscroll

theorem drawChars_inside (hfb : fb.Proper) (hcells : fb.WholeCells) (cs : List ℕ)
    (h : AtCell fb w) : ∀ p ∈ (drawChars m cs w).1, fb.Inside p := by
  induction cs generalizing w with
  | nil => exact nofun
  | cons c cs ih =>
      obtain ⟨hdrawn, hnext⟩ := drawChar_inside (m := m) (c := c) hfb hcells h
      intro p hp
      rw [drawChars] at hp
      rcases hrun : w.drawChar m c with ⟨drawn, _ | ⟨res, w'⟩⟩
      · rw [hrun] at hp hdrawn
        exact hdrawn p hp
      · rw [hrun] at hp hdrawn hnext
        rcases List.mem_append.mp hp with hp | hp
        · exact hdrawn p hp
        · exact ih (hnext res w' rfl) p hp

/-! ## Cells that are not whole -/

/-- Nothing overflows in the cells of the screen, or what does wraps. -/
def Fits (m : Overflow) (fb : RawFramebuffer) : Prop :=
  m = .wrapping ∨ (fb.height + 32) * fb.pitch ≤ 2 ^ 64

/-- Every pixel of the cell of the cursor can be drawn. -/
theorem drawInCell_ok (hfb : fb.Proper) (hfits : Fits m fb) (h : AtCell fb w)
    (henabled : w.disabled = false) (hx : x < 8) (hy : y < 15) :
    ∃ p, w.drawInCell m x y = .ok p ∧ p.x = x + w.currX ∧ p.y = y + w.currY := by
  have hwidth := width_lt hfb
  have hheight := hfb.height_lt
  have hleft := h.left
  have htop := h.top henabled
  have hrow := h.row
  have hpitch := hfb.pitch
  have hwidth_pos := hfb.width_pos
  rw [hfb.bpp] at hpitch
  have hlines : (y + w.currY) * fb.pitch ≤ (fb.height + 15) * fb.pitch :=
    Nat.mul_le_mul_right _ (by omega)
  have hsplit : (fb.height + 32) * fb.pitch = (fb.height + 15) * fb.pitch + 17 * fb.pitch := by
    rw [← Nat.add_mul]
  rw [drawInCell, Usize.add_eq (by omega), ok_bind, Usize.add_eq (by omega), ok_bind, drawPixel,
    h.framebuffer, hfb.bpp]
  obtain ⟨line, hline⟩ : ∃ line, Usize.mul m (y + w.currY) fb.pitch = .ok line :=
    Usize.exists_fit (hfits.imp id fun hfits => by omega)
  obtain ⟨column, hcolumn⟩ : ∃ column, Usize.mul m (x + w.currX) (32 / 8) = .ok column :=
    Usize.exists_fit (hfits.imp id fun hfits => by omega)
  have hline' := (Usize.mul_spec m _ _).post hline
  have hcolumn' := (Usize.mul_spec m _ _).post hcolumn
  obtain ⟨offset, hoffset⟩ : ∃ offset, Usize.add m column line = .ok offset :=
    Usize.exists_fit (hfits.imp id fun hfits => by omega)
  refine ⟨⟨x + w.currX, y + w.currY, offset⟩, ?_, rfl, rfl⟩
  rw [hline, ok_bind, hcolumn, ok_bind, hoffset, ok_bind]

theorem exists_mem_drawPixels {l : List (ℕ × ℕ)}
    (hok : ∀ q ∈ l, ∃ p, w.drawInCell m q.1 q.2 = .ok p) {q : ℕ × ℕ} (hq : q ∈ l) :
    ∃ p ∈ (w.drawPixels m l).1, w.drawInCell m q.1 q.2 = .ok p := by
  induction l with
  | nil => cases hq
  | cons q' l ih =>
      obtain ⟨p', hp'⟩ := hok q' List.mem_cons_self
      rw [drawPixels, hp']
      rcases List.mem_cons.mp hq with rfl | hq
      · exact ⟨p', List.mem_cons_self, hp'⟩
      · obtain ⟨p, hp, hrun⟩ := ih (fun q hq => hok q (List.mem_cons_of_mem q' hq)) hq
        exact ⟨p, List.mem_cons_of_mem p' hp, hrun⟩

/-- A pixel of a glyph is drawn. -/
theorem exists_mem_drawChar (hfb : fb.Proper) (hfits : Fits m fb) (h : AtCell fb w)
    (henabled : w.disabled = false) (hc : c < 256) (hq : (x, y) ∈ glyphPixels c) :
    ∃ p ∈ (w.drawChar m c).1, p.x = x + w.currX ∧ p.y = y + w.currY := by
  have hok : ∀ q ∈ glyphPixels c, ∃ p, w.drawInCell m q.1 q.2 = .ok p ∧ p.x = q.1 + w.currX ∧
      p.y = q.2 + w.currY := by
    rintro ⟨x, y⟩ hq
    obtain ⟨hx, hy⟩ := bounds_of_mem_glyphPixels hq
    exact drawInCell_ok hfb hfits h henabled hx hy
  obtain ⟨p, hp, hrun⟩ := exists_mem_drawPixels (fun q hq => (hok q hq).imp fun _ h => h.1) hq
  obtain ⟨p', hrun', hx, hy⟩ := hok _ hq
  obtain rfl := Except.ok.inj (hrun.symm.trans hrun')
  refine ⟨p, ?_, hx, hy⟩
  rw [drawChar, henabled, if_neg Bool.false_ne_true, if_neg (by rw [length_font]; omega)]
  exact hp

theorem drawChars_append {cs ds : List ℕ} {ps : List Pixel}
    (hrun : drawChars m cs w = (ps, .ok w')) :
    (drawChars m (cs ++ ds) w).1 = ps ++ (drawChars m ds w').1 := by
  induction cs generalizing w ps with
  | nil =>
      obtain ⟨rfl, hw⟩ := Prod.mk.inj hrun
      obtain rfl := Except.ok.inj hw
      rfl
  | cons c cs ih =>
      rw [drawChars] at hrun
      rw [List.cons_append, drawChars]
      rcases hchar : w.drawChar m c with ⟨drawn, _ | ⟨res, w₁⟩⟩
      · rw [hchar] at hrun
        cases (Prod.mk.inj hrun).2
      · rw [hchar] at hrun
        obtain ⟨rfl, hw⟩ := Prod.mk.inj hrun
        dsimp only
        rw [ih (Prod.ext rfl hw), List.append_assoc]

theorem mem_drawChars_singleton {p : Pixel} (hp : p ∈ (w.drawChar m c).1) :
    p ∈ (drawChars m [c] w).1 := by
  rw [drawChars]
  rcases hchar : w.drawChar m c with ⟨drawn, _ | ⟨res, w'⟩⟩
  · rwa [hchar] at hp
  · rw [hchar] at hp
    exact List.mem_append_left _ hp

/-- A character drawn behind others fills the pixels of its glyph in the cell they lead to. -/
theorem exists_mem_drawChars_concat {cs : List ℕ} {ps : List Pixel} (hfb : fb.Proper)
    (hfits : Fits m fb) (hrun : drawChars m cs w = (ps, .ok w')) (h : AtCell fb w')
    (henabled : w'.disabled = false) (hc : c < 256) (hq : (x, y) ∈ glyphPixels c) :
    ∃ p ∈ (drawChars m (cs ++ [c]) w).1, p.x = x + w'.currX ∧ p.y = y + w'.currY := by
  obtain ⟨p, hp, hpos⟩ := exists_mem_drawChar hfb hfits h henabled hc hq
  refine ⟨p, ?_, hpos⟩
  rw [drawChars_append hrun]
  exact List.mem_append_right _ (mem_drawChars_singleton hp)

theorem bytes_replicate {k d : ℕ} (hc : c < 256) (hd : d < 256) :
    ∀ c' ∈ List.replicate k c ++ [d], c' < 256 := by
  intro c' hc'
  rcases List.mem_append.mp hc' with hc' | hc'
  · rwa [List.eq_of_mem_replicate hc']
  · rwa [List.mem_singleton.mp hc']

/-- A glyph without pixels only moves the cursor. -/
theorem drawChar_blank (henabled : w.disabled = false) (hc : c < 256) (hblank : glyphPixels c = [])
    (hscroll : w.scrollX m c = .ok w') : w.drawChar m c = ([], .ok (.ok (), w')) := by
  rw [drawChar, henabled, if_neg Bool.false_ne_true, if_neg (by rw [length_font]; omega), hblank]
  simp only [drawPixels, ok_bind, hscroll]

/-- Blank characters move the cursor to the right. -/
theorem drawChars_blanks (hwidth : w.framebuffer.width < 2 ^ 62) (henabled : w.disabled = false)
    (k : ℕ) (hk : w.currX + 8 * k < w.framebuffer.width) :
    drawChars m (List.replicate k 0) w = ([], .ok { w with currX := w.currX + 8 * k }) := by
  induction k generalizing w with
  | zero => rfl
  | succ k ih =>
      have hscroll : w.scrollX m 0 = .ok { w with currX := w.currX + 8 } := by
        rw [FramebufferWriter.scrollX, Usize.add_eq (by omega), ok_bind, if_neg]
        rw [not_or, not_le]
        exact ⟨by omega, by decide⟩
      have hblank : glyphPixels 0 = [] := by decide +kernel
      have hrest := ih (w := { w with currX := w.currX + 8 }) hwidth henabled (by dsimp only; omega)
      rw [List.replicate_succ, drawChars, drawChar_blank henabled (by omega) hblank hscroll]
      dsimp only at hrest ⊢
      rw [hrest, List.nil_append]
      simp only [Nat.mul_succ, Nat.add_assoc, Nat.add_comm 8]

/-- Newlines move the cursor down. -/
theorem drawChars_newlines (hwidth : w.framebuffer.width < 2 ^ 62)
    (hheight : w.framebuffer.height < 2 ^ 64) (henabled : w.disabled = false) (hx : w.currX = 0)
    (k : ℕ) (hk : w.currY + 16 * k < w.framebuffer.height) :
    drawChars m (List.replicate k NEWLINE) w =
      ([], .ok { w with currY := w.currY + 16 * k }) := by
  induction k generalizing w with
  | zero => rfl
  | succ k ih =>
      have hscroll : w.scrollX m NEWLINE = .ok { w with currY := w.currY + 16 } := by
        have hbelow : decide (w.currY + 16 ≥ w.framebuffer.height) = false := by
          rw [decide_eq_false_iff_not]
          omega
        rw [FramebufferWriter.scrollX, Usize.add_eq (by omega), ok_bind, if_pos (Or.inr rfl), scrollY,
          Usize.add_eq (show w.currY + 16 < 2 ^ 64 by omega), ok_bind]
        dsimp only
        rw [hbelow, Bool.or_false, ← hx]
      have hblank : glyphPixels NEWLINE = [] := by decide +kernel
      have hrest := ih (w := { w with currY := w.currY + 16 }) hwidth hheight henabled hx
        (by dsimp only; omega)
      rw [List.replicate_succ, drawChars, drawChar_blank henabled (by decide) hblank hscroll]
      dsimp only at hrest ⊢
      rw [hrest, List.nil_append]
      simp only [Nat.mul_succ, Nat.add_assoc, Nat.add_comm 16]

/-- A cell that is cut off at the right is reached by blanks, and the letter `Y` fills it. -/
theorem exists_outside_right (hfb : fb.Proper) (hfits : Fits m fb) (hcut : fb.width % 8 ≠ 0) :
    ∃ p ∈ (drawChars m (List.replicate (fb.width / 8) 0 ++ [89]) (new fb)).1, fb.width ≤ p.x := by
  have hcol : 8 * (fb.width / 8) < fb.width := by omega
  have hcell : AtCell fb { new fb with currX := 0 + 8 * (fb.width / 8) } :=
    ⟨rfl, by dsimp only; omega, by dsimp only; omega, rfl, fun _ => hfb.height_pos⟩
  have hrun := drawChars_blanks (m := m) (w := new fb) (width_lt hfb) rfl (fb.width / 8)
    (by simpa [new] using hcol)
  have hpixel : (7, 2) ∈ glyphPixels 89 := by decide +kernel
  obtain ⟨p, hp, hx, -⟩ :=
    exists_mem_drawChars_concat hfb hfits hrun hcell rfl (by omega) hpixel
  refine ⟨p, hp, ?_⟩
  dsimp only at hx
  omega

/-- A cell that is cut off at the bottom is reached by newlines, and the letter `g` fills it. -/
theorem exists_outside_below (hfb : fb.Proper) (hfits : Fits m fb) (hcut : fb.height % 16 ≠ 0)
    (hlast : fb.height % 16 ≠ 15) :
    ∃ p ∈ (drawChars m (List.replicate (fb.height / 16) NEWLINE ++ [103]) (new fb)).1,
      fb.height ≤ p.y := by
  have hrow : 16 * (fb.height / 16) < fb.height := by omega
  have hcell : AtCell fb { new fb with currY := 0 + 16 * (fb.height / 16) } :=
    ⟨rfl, rfl, hfb.width_pos, by dsimp only; omega, fun _ => by dsimp only; omega⟩
  have hrun := drawChars_newlines (m := m) (w := new fb) (width_lt hfb) hfb.height_lt rfl rfl
    (fb.height / 16) (by simpa [new] using hrow)
  have hpixel : (1, 14) ∈ glyphPixels 103 := by decide +kernel
  obtain ⟨p, hp, -, hy⟩ :=
    exists_mem_drawChars_concat hfb hfits hrun hcell rfl (by omega) hpixel
  refine ⟨p, hp, ?_⟩
  dsimp only at hy
  omega

/-- The screen of whole cells is the one that no sequence of characters leaves. -/
theorem pixels_inside_iff (m : Overflow) (fb : RawFramebuffer) (hfb : fb.Proper) :
    (fb.WholeCells → ∀ cs, ∀ p ∈ (drawChars m cs (new fb)).1, fb.Inside p) ∧
      (Fits m fb →
        (∀ cs, (∀ c ∈ cs, c < 256) → ∀ p ∈ (drawChars m cs (new fb)).1, fb.Inside p) →
          fb.WholeCells) := by
  refine ⟨fun hcells cs => drawChars_inside hfb hcells cs (atCell_new hfb), fun hfits hall => ?_⟩
  by_contra hcut
  by_cases hwidth : fb.width % 8 = 0
  · have hheight : ¬(fb.height % 16 = 0 ∨ fb.height % 16 = 15) := fun h => hcut ⟨hwidth, h⟩
    rw [not_or] at hheight
    obtain ⟨p, hp, hy⟩ := exists_outside_below hfb hfits hheight.1 hheight.2
    exact (hall _ (bytes_replicate (by decide) (by decide)) p hp).2.1.not_ge hy
  · obtain ⟨p, hp, hx⟩ := exists_outside_right hfb hfits hwidth
    exact (hall _ (bytes_replicate (by decide) (by decide)) p hp).1.not_ge hx

/-- A screen of three cells by two, and one of two cells and a half. -/
theorem small_screens_inside_iff :
    (∀ cs, ∀ p ∈ (drawChars .checked cs (new ⟨24, 32, 96, 32⟩)).1,
      RawFramebuffer.Inside ⟨24, 32, 96, 32⟩ p) ∧
    ¬∀ cs, (∀ c ∈ cs, c < 256) → ∀ p ∈ (drawChars .checked cs (new ⟨20, 32, 96, 32⟩)).1,
      RawFramebuffer.Inside ⟨20, 32, 96, 32⟩ p :=
  ⟨(pixels_inside_iff .checked ⟨24, 32, 96, 32⟩
      ⟨by decide, by decide, rfl, by decide, by decide, by decide⟩).1 ⟨rfl, Or.inl rfl⟩,
    fun h => absurd ((pixels_inside_iff .checked ⟨20, 32, 96, 32⟩
      ⟨by decide, by decide, rfl, by decide, by decide, by decide⟩).2 (Or.inr (by decide)) h).1
      (by decide)⟩

/-- The second `Y` on a line of twelve pixels. -/
theorem second_letter_outside :
    RawFramebuffer.Proper ⟨12, 16, 48, 32⟩ ∧
      ∃ p ∈ (drawChars .checked [89, 89] (new ⟨12, 16, 48, 32⟩)).1, 12 ≤ p.x := by
  refine ⟨⟨by decide, by decide, rfl, by decide, by decide, by decide⟩, ⟨15, 2, 156⟩, ?_, by decide⟩
  decide +kernel

end FramebufferWriter

end Funderberker
