import ChipEight.Layout

/-!
A frame is a torus of pixels that are on or off. A sprite is drawn by flipping the pixel
under each of its set bits, one after the other, so a bit that meets a lit pixel turns it
off; the drawing reports whether that happened. The frame remembers whether it changed since
it was last shown.
-/
namespace ChipEight

structure Frame where
  width : Nat
  height : Nat
  pixels : Array Bool
  dirty : Bool
  width_pos : 0 < width
  height_pos : 0 < height
  size_pixels : pixels.size = width * height
deriving DecidableEq

namespace Sprite

def rowPoints (x y : Nat) (row : UInt8) : List (Nat × Nat) :=
  ((List.range Layout.spriteWidth).filter fun column => row.toNat.testBit (7 - column)).map
    fun column => (x + column, y)

/-- The places of all set bits when the top left corner stands at `(x, y)`. -/
def points (x y : Nat) : List UInt8 → List (Nat × Nat)
  | [] => []
  | row :: rest => rowPoints x y row ++ points x (y + 1) rest

end Sprite

namespace Frame

/-- All pixels off; a width or height of zero is raised to one. -/
def blank (width height : Nat) : Frame where
  width := max width 1
  height := max height 1
  pixels := Array.replicate (max width 1 * max height 1) false
  dirty := false
  width_pos := by omega
  height_pos := by omega
  size_pixels := Array.size_replicate

/-- The position of a pixel in the row-major pixel array; both coordinates wrap around. -/
def cell (f : Frame) (x y : Nat) : Nat := y % f.height * f.width + x % f.width

theorem cell_lt (f : Frame) (x y : Nat) : f.cell x y < f.pixels.size := by
  have hx := Nat.mod_lt x f.width_pos
  have hy := Nat.mod_lt y f.height_pos
  calc
    f.cell x y < y % f.height * f.width + f.width := Nat.add_lt_add_left hx _
    _ = (y % f.height + 1) * f.width := (Nat.succ_mul ..).symm
    _ ≤ f.height * f.width := Nat.mul_le_mul_right _ hy
    _ = f.pixels.size := by rw [f.size_pixels, Nat.mul_comm]

def lit (f : Frame) (x y : Nat) : Bool :=
  have h := f.cell_lt x y
  f.pixels[f.cell x y]

/-- The pixel stored at column `x` of the row that starts at `y * width`, if that is a pixel. -/
def pixel? (f : Frame) (x y : Nat) : Option Bool := f.pixels[y * f.width + x]?

def rows (f : Frame) : List (List Bool) :=
  (List.range f.height).map fun y => (List.range f.width).map fun x => f.lit x y

def flip (f : Frame) (x y : Nat) : Frame :=
  { f with
    pixels := f.pixels.set (f.cell x y) (!f.lit x y) (f.cell_lt x y)
    dirty := true
    size_pixels := by rw [Array.size_set, f.size_pixels] }

/-- Flips the pixels one after the other and tells whether one of them was lit. -/
def plot (collision : Bool) (f : Frame) : List (Nat × Nat) → Bool × Frame
  | [] => (collision, f)
  | (x, y) :: rest =>
    let met := collision || f.lit x y
    plot met (f.flip x y) rest

def draw (f : Frame) (x y : Nat) (sprite : List UInt8) : Bool × Frame :=
  f.plot false (Sprite.points x y sprite)

def clear (f : Frame) : Frame :=
  { f with
    pixels := Array.replicate (f.width * f.height) false
    dirty := true
    size_pixels := Array.size_replicate }

def shown (f : Frame) : Frame := { f with dirty := false }

theorem shown_of_clean {f : Frame} (h : f.dirty = false) : f.shown = f := by
  rw [shown, ← h]

theorem cell_eq_cell_iff (f : Frame) (x y a b : Nat) :
    f.cell x y = f.cell a b ↔ x % f.width = a % f.width ∧ y % f.height = b % f.height := by
  have hx := Nat.mod_lt x f.width_pos
  have ha := Nat.mod_lt a f.width_pos
  constructor
  · intro h
    have hcol := congrArg (· % f.width) h
    have hrow := congrArg (· / f.width) h
    simp only [cell, Nat.mul_add_mod_self_right, Nat.mod_mod] at hcol
    simp only [cell, Nat.add_comm _ (_ % f.width), Nat.add_mul_div_right _ _ f.width_pos,
      Nat.div_eq_of_lt hx, Nat.div_eq_of_lt ha, Nat.zero_add] at hrow
    exact ⟨hcol, hrow⟩
  · rintro ⟨hcol, hrow⟩
    simp only [cell, hcol, hrow]

theorem lit_flip (f : Frame) (x y a b : Nat) :
    (f.flip x y).lit a b = if f.cell x y = f.cell a b then !f.lit x y else f.lit a b :=
  Array.getElem_set (f.cell_lt x y) ((f.flip x y).cell_lt a b)

theorem lit_congr (f : Frame) {x y a b : Nat} (h : f.cell x y = f.cell a b) :
    f.lit x y = f.lit a b := by
  simp only [lit, h]

/-- Two frames of one size with the same pixels and the same mark are equal. -/
theorem ext_lit {f g : Frame} (hw : f.width = g.width) (hh : f.height = g.height)
    (hd : f.dirty = g.dirty) (hlit : ∀ x y, f.lit x y = g.lit x y) : f = g := by
  obtain ⟨fw, fh, fp, fd, hfw, hfh, hfs⟩ := f
  obtain ⟨gw, gh, gp, gd, hgw, hgh, hgs⟩ := g
  simp only at hw hh hd
  subst hw hh hd
  have hpixels : fp = gp := by
    apply Array.ext (hfs.trans hgs.symm)
    intro k hk hk'
    have h := hlit (k % fw) (k / fw)
    have hrow : k / fw < fh := by
      rw [Nat.div_lt_iff_lt_mul hfw, Nat.mul_comm]
      exact hfs ▸ hk
    have hcell : k / fw % fh * fw + k % fw % fw = k := by
      rw [Nat.mod_eq_of_lt hrow, Nat.mod_mod, Nat.mul_comm]
      exact Nat.div_add_mod k fw
    simpa only [lit, cell, hcell] using h
  subst hpixels
  rfl

end Frame
end ChipEight
