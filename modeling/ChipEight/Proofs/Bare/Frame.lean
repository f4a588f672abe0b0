import ChipEight.Frame
import ChipEight.Proofs.Bare.Guarded
import ChipEight.Proofs.Drawing

/-!
A frame as two numbers and an array of bytes, one byte for each pixel. Drawing computes each place
with word arithmetic, reduces it by the width and the height, and indexes with the result. As long
as the pixels can be allocated at all, nothing of this breaks down for a frame of the machine,
however large, and the bytes stay zeros and ones.
-/
namespace ChipEight

structure Bare.Frame where
  width : Nat
  height : Nat
  pixels : Array UInt8
  dirty : Bool

namespace Bare.Frame

/-- A width or height of zero is raised to one before they are multiplied. -/
def blank (width height : Nat) : Guarded Frame := do
  let width := max width 1
  let height := max height 1
  let size ← fit wordBits (width * height)
  allocate size
  return ⟨width, height, Array.replicate size 0, false⟩

/-- Flips the pixel of a column and of a row that is a row of the frame, and tells whether
it was lit. -/
def flip (f : Frame) (column row : Nat) : Guarded (Bool × Frame) := do
  let column ← remainder column f.width
  let start ← fit wordBits (row * f.width)
  let place ← fit wordBits (start + column)
  let pixel ← get f.pixels place
  let pixels ← put f.pixels place (pixel ^^^ 1)
  return (pixel == 1, { f with pixels, dirty := true })

/-- One bit of a sprite row; the state is the collision so far and the frame. -/
def drawBit (x row : Nat) (bits : UInt8) (state : Bool × Frame) (column : Nat) :
    Guarded (Bool × Frame) := do
  let amount ← subtract 7 column
  let shifted ← shiftRight 8 bits.toNat amount
  if shifted &&& 1 = 0 then return state
  else do
    let place ← fit wordBits (x + column)
    let (met, f) ← state.2.flip place row
    return (state.1 || met, f)

def drawRows (x y : Nat) : List UInt8 → Bool × Frame → Guarded (Bool × Frame)
  | [], state => return state
  | bits :: rest, state => do
    let place ← fit wordBits y
    let row ← remainder place state.2.height
    let state ← (List.range Layout.spriteWidth).foldlM (drawBit x row bits) state
    drawRows x (y + 1) rest state

def draw (f : Frame) (x y : Nat) (sprite : List UInt8) : Guarded (Bool × Frame) :=
  drawRows x y sprite (false, f)

def clear (f : Frame) : Frame := { f with pixels := f.pixels.map fun _ => 0, dirty := true }

def shown (f : Frame) : Frame := { f with dirty := false }

def rows (f : Frame) : Guarded (List (List UInt8)) :=
  require (f.width ≠ 0) .emptyChunk
    ((List.range ((f.pixels.size + f.width - 1) / f.width)).map fun y =>
      (f.pixels.toList.drop (y * f.width)).take f.width)

end Bare.Frame

namespace Frame

open Bare

def bare (f : Frame) : Bare.Frame := ⟨f.width, f.height, f.pixels.map Bool.toUInt8, f.dirty⟩

def bareDrawn (drawn : Bool × Frame) : Bool × Bare.Frame := (drawn.1, drawn.2.bare)

theorem size_bare (f : Frame) : f.bare.pixels.size = f.width * f.height := by
  rw [bare, Array.size_map, f.size_pixels]

theorem pixel_bare (f : Frame) {pixel : UInt8} (h : pixel ∈ f.bare.pixels) :
    pixel = 0 ∨ pixel = 1 := by
  obtain ⟨lit, -, rfl⟩ := Array.mem_map.mp h
  cases lit
  · exact .inl rfl
  · exact .inr rfl

@[simp] theorem width_bare (f : Frame) : f.bare.width = f.width := rfl

@[simp] theorem height_bare (f : Frame) : f.bare.height = f.height := rfl

theorem blank_bare {width height : Nat} (h : max width 1 * max height 1 ≤ maxAllocation) :
    Bare.Frame.blank width height = .ok (blank width height).bare := by
  simp only [Bare.Frame.blank, fit_eq_ok (lt_wordBits_of_le h), ok_bind, allocate_eq_ok h,
    pure_eq_ok, bare, blank, Array.map_replicate]
  rfl

theorem clear_bare (f : Frame) : f.bare.clear = f.clear.bare := by
  have hpixels : (f.pixels.map Bool.toUInt8).map (fun _ => (0 : UInt8)) =
      (Array.replicate (f.width * f.height) false).map Bool.toUInt8 := by
    rw [Array.map_map, ← f.size_pixels, Array.map_replicate]
    exact Array.map_const ..
  simp only [Bare.Frame.clear, bare, clear, hpixels]

theorem flip_bare {f : Frame} (h : f.pixels.size ≤ maxAllocation) (column y : Nat) :
    f.bare.flip column (y % f.height) = .ok (bareDrawn (f.lit column y, f.flip column y)) := by
  have hcell := f.cell_lt column y
  have hplace : y % f.height * f.width + column % f.width < 2 ^ wordBits :=
    lt_wordBits_of_le (Nat.le_of_lt (Nat.lt_of_lt_of_le hcell h))
  have hstart : y % f.height * f.width < 2 ^ wordBits :=
    Nat.lt_of_le_of_lt (Nat.le_add_right ..) hplace
  have hindex : y % f.height * f.width + column % f.width < f.bare.pixels.size := by
    rw [size_bare, ← f.size_pixels]
    exact hcell
  have hpixel : f.bare.pixels[y % f.height * f.width + column % f.width] =
      (f.lit column y).toUInt8 := Array.getElem_map ..
  have hflipped : ∀ lit : Bool, lit.toUInt8 ^^^ 1 = (!lit).toUInt8 := by decide
  have hlit : ∀ lit : Bool, (lit.toUInt8 == 1) = lit := by decide
  simp only [Bare.Frame.flip, width_bare, remainder_eq_ok f.width_pos, ok_bind, fit_eq_ok hstart,
    fit_eq_ok hplace, get_eq_ok hindex, put_eq_ok hindex, hpixel, hflipped, hlit, pure_eq_ok]
  simp only [bareDrawn, bare, flip, Array.map_set]
  rfl

/-- The bit that is shifted into the last place is the tested one. -/
theorem shiftRight_and_one_eq_zero_iff (n k : Nat) : n >>> k &&& 1 = 0 ↔ n.testBit k = false := by
  rw [Nat.and_one_is_mod, Nat.shiftRight_eq_div_pow, Nat.testBit_eq_decide_div_mod_eq]
  simp

theorem drawBit_bare {f : Frame} (h : f.pixels.size ≤ maxAllocation) {x : Nat}
    (hx : x + 7 < 2 ^ wordBits) (y : Nat) (bits : UInt8) (collision : Bool) {column : Nat}
    (hcolumn : column < 8) :
    Bare.Frame.drawBit x (y % f.height) bits (collision, f.bare) column = .ok (bareDrawn
      (if bits.toNat.testBit (7 - column) then
        (collision || f.lit (x + column) y, f.flip (x + column) y)
      else (collision, f))) := by
  have hplace : x + column < 2 ^ wordBits := by omega
  rw [Bare.Frame.drawBit, subtract_eq_ok (by omega), ok_bind, shiftRight_eq_ok (by omega),
    ok_bind]
  cases hbit : bits.toNat.testBit (7 - column) with
  | false =>
    rw [if_pos ((shiftRight_and_one_eq_zero_iff ..).mpr hbit)]
    rfl
  | true =>
    have hne : ¬ (bits.toNat >>> (7 - column) &&& 1 = 0) := by
      rw [shiftRight_and_one_eq_zero_iff, hbit]
      exact Bool.noConfusion
    rw [if_neg hne, fit_eq_ok hplace, ok_bind, flip_bare h]
    rfl

/-- The bits of one row flip the pixels at its points. -/
theorem drawBits_bare {f : Frame} (h : f.pixels.size ≤ maxAllocation) {x : Nat}
    (hx : x + 7 < 2 ^ wordBits) (y : Nat) (bits : UInt8) (collision : Bool) {columns : List Nat}
    (hcolumns : ∀ column ∈ columns, column < 8) :
    columns.foldlM (Bare.Frame.drawBit x (y % f.height) bits) (collision, f.bare) =
      .ok (bareDrawn (f.plot collision
        ((columns.filter fun column => bits.toNat.testBit (7 - column)).map
          fun column => (x + column, y)))) := by
  induction columns generalizing f collision with
  | nil => rfl
  | cons column rest ih =>
    have hrest : ∀ next ∈ rest, next < 8 := fun next hnext =>
      hcolumns next (List.mem_cons_of_mem _ hnext)
    have hcolumn := hcolumns column (List.mem_cons_self ..)
    rw [List.foldlM_cons, drawBit_bare h hx y bits collision hcolumn, ok_bind]
    cases hbit : bits.toNat.testBit (7 - column) with
    | false =>
      rw [List.filter_cons_of_neg (by rw [hbit]; exact Bool.noConfusion)]
      exact ih h collision hrest
    | true =>
      rw [List.filter_cons_of_pos (by exact hbit)]
      have hsize : (f.flip (x + column) y).pixels.size ≤ maxAllocation := by
        simpa only [flip, Array.size_set] using h
      exact ih hsize (collision || f.lit (x + column) y) hrest

theorem drawRows_bare {f : Frame} (h : f.pixels.size ≤ maxAllocation) {x : Nat}
    (hx : x + 7 < 2 ^ wordBits) {y : Nat} {sprite : List UInt8}
    (hy : y + sprite.length ≤ 2 ^ wordBits) (collision : Bool) :
    Bare.Frame.drawRows x y sprite (collision, f.bare) =
      .ok (bareDrawn (f.plot collision (Sprite.points x y sprite))) := by
  induction sprite generalizing f y collision with
  | nil => rfl
  | cons bits rest ih =>
    rw [List.length_cons] at hy
    have hcolumns : ∀ column ∈ List.range Layout.spriteWidth, column < 8 :=
      fun column hcolumn => List.mem_range.mp hcolumn
    rw [Bare.Frame.drawRows, fit_eq_ok (by omega), ok_bind]
    simp only [height_bare]
    rw [remainder_eq_ok f.height_pos, ok_bind, drawBits_bare h hx y bits collision hcolumns,
      ok_bind, Sprite.points, plot_append]
    have hsize :
        (f.plot collision (Sprite.rowPoints x y bits)).2.pixels.size ≤ maxAllocation := by
      rw [size_pixels, width_plot, height_plot, ← f.size_pixels]
      exact h
    exact ih hsize (by omega) _

/-- Every place of a draw, the last column and the last row included, fits into a word. -/
theorem draw_bare {f : Frame} (h : f.pixels.size ≤ maxAllocation) {x y : Nat}
    (hx : x + 7 < 2 ^ wordBits) {sprite : List UInt8} (hy : y + sprite.length ≤ 2 ^ wordBits) :
    f.bare.draw x y sprite = .ok (bareDrawn (f.draw x y sprite)) :=
  drawRows_bare h hx hy false

/-- The chunks of a frame are its rows, and there are no others. -/
theorem rows_bare (f : Frame) :
    f.bare.rows = .ok (f.rows.map fun row => row.map Bool.toUInt8) := by
  have hchunks : f.bare.rows = chunks f.width f.bare.pixels.toList := rfl
  rw [hchunks, chunks_eq_ok f.width_pos f.size_bare, rows, List.map_map]
  congr 1
  apply List.map_congr_left
  intro y hy
  have hy : y < f.height := List.mem_range.mp hy
  have hrow : y * f.width + f.width ≤ f.width * f.height := by
    rw [← Nat.succ_mul, Nat.mul_comm f.width]
    exact Nat.mul_le_mul_right _ hy
  have hlength : f.bare.pixels.toList.length = f.width * f.height := by
    rw [Array.length_toList, size_bare]
  apply List.ext_getElem
  · simp only [List.length_take, List.length_drop, hlength, Function.comp_apply, List.length_map,
      List.length_range]
    omega
  · intro x hx _
    have hx : x < f.width := Nat.lt_of_lt_of_le hx (List.length_take_le ..)
    simp [bare, lit, cell, Nat.mod_eq_of_lt hx, Nat.mod_eq_of_lt hy]

end Frame
end ChipEight
