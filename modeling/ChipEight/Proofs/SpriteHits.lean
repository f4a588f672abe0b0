import Mathlib.Algebra.BigOperators.Group.Finset.Piecewise
import Mathlib.Algebra.BigOperators.Group.Finset.Sigma
import Mathlib.Algebra.Ring.Parity
import Mathlib.Data.Nat.Count
import ChipEight.Proofs.Bare.Frame
import ChipEight.Proofs.Loading
import ChipEight.Proofs.OpcodeTable
import ChipEight.Proofs.Trail

/-!
How often a sprite hits a pixel. On a frame that is narrower or lower than a sprite several set
bits fall on one pixel, so drawing is counted bit by bit: a pixel changes if the number of its
hits is odd, and a collision is met if a lit pixel is hit or any pixel is hit twice.
-/
namespace ChipEight

namespace Sprite

/-- The number of set bits, each a pair of a row and a column, that fall on the pixel `(a, b)` of
a torus when the top left corner stands at `(x, y)`. -/
def hits (width height x y : Nat) (sprite : List UInt8) (a b : Nat) : Nat :=
  ((Finset.range sprite.length ×ˢ Finset.range Layout.spriteWidth).filter fun (row, column) =>
    (sprite.getD row 0).toNat.testBit (7 - column) ∧
      (x + column) % width = a ∧ (y + row) % height = b).card

theorem hits_nil (width height x y a b : Nat) : hits width height x y [] a b = 0 := by
  simp [hits]

/-- The hits of the first row and those of the others, which stand one row lower. -/
theorem hits_cons (width height x y : Nat) (row : UInt8) (rest : List UInt8) (a b : Nat) :
    hits width height x y (row :: rest) a b =
      (rowPoints x y row).countP (fun (u, v) => u % width = a ∧ v % height = b) +
        hits width height x (y + 1) rest a b := by
  simp only [hits, Finset.card_filter, Finset.sum_product, List.length_cons]
  rw [Finset.sum_range_succ', Nat.add_comm]
  congr 1
  · rw [← Finset.card_filter, ← Nat.count_eq_card_filter_range, Nat.count, rowPoints,
      List.countP_map, List.countP_filter]
    apply List.countP_congr
    intro column _
    simp [and_comm]
  · simp only [List.getD_cons_succ, Nat.add_assoc, Nat.add_comm 1]

/-- A pixel is hit once for each point of the sprite that lies on it. -/
theorem hits_eq_countP (width height x y : Nat) (sprite : List UInt8) (a b : Nat) :
    hits width height x y sprite a b =
      (points x y sprite).countP fun (u, v) => u % width = a ∧ v % height = b := by
  induction sprite generalizing y with
  | nil => rw [hits_nil, points, List.countP_nil]
  | cons row rest ih => rw [hits_cons, points, List.countP_append, ih]

end Sprite

namespace Frame

def pointsAt (f : Frame) (points : List (Nat × Nat)) (a b : Nat) : Nat :=
  points.countP fun (x, y) => f.cell x y = f.cell a b

theorem pointsAt_eq_hits (f : Frame) (x y : Nat) (sprite : List UInt8) {a b : Nat}
    (ha : a < f.width) (hb : b < f.height) :
    f.pointsAt (Sprite.points x y sprite) a b =
      Sprite.hits f.width f.height x y sprite a b := by
  simp only [pointsAt, Sprite.hits_eq_countP, cell_eq_cell_iff, Nat.mod_eq_of_lt ha,
    Nat.mod_eq_of_lt hb]

theorem pointsAt_cons_of_eq {f : Frame} {x y a b : Nat} (h : f.cell x y = f.cell a b)
    (rest : List (Nat × Nat)) : f.pointsAt ((x, y) :: rest) a b = f.pointsAt rest a b + 1 :=
  List.countP_cons_of_pos (by simpa using h)

theorem pointsAt_cons_of_ne {f : Frame} {x y a b : Nat} (h : f.cell x y ≠ f.cell a b)
    (rest : List (Nat × Nat)) : f.pointsAt ((x, y) :: rest) a b = f.pointsAt rest a b :=
  List.countP_cons_of_neg (by simpa using h)

/-- A pixel changes if an odd number of points lies on it. -/
theorem lit_plot (collision : Bool) (f : Frame) (points : List (Nat × Nat)) (a b : Nat) :
    (f.plot collision points).2.lit a b =
      (f.lit a b ^^ decide (Odd (f.pointsAt points a b))) := by
  induction points generalizing collision f with
  | nil => simp [plot, pointsAt]
  | cons point rest ih =>
    obtain ⟨x, y⟩ := point
    have hrest : (f.flip x y).pointsAt rest a b = f.pointsAt rest a b := rfl
    rw [plot, ih, lit_flip, hrest]
    by_cases hcell : f.cell x y = f.cell a b
    · rw [if_pos hcell, pointsAt_cons_of_eq hcell, f.lit_congr hcell]
      simp only [Nat.odd_add_one, decide_not, Bool.not_xor, Bool.xor_not]
    · rw [if_neg hcell, pointsAt_cons_of_ne hcell]

/-- What is met at a pixel: by the first point, or by the others on the frame that it flips. -/
theorem meets_cons_iff (f : Frame) (x y : Nat) (rest : List (Nat × Nat)) (a b : Nat) :
    (2 ≤ f.pointsAt ((x, y) :: rest) a b ∨
        1 ≤ f.pointsAt ((x, y) :: rest) a b ∧ f.lit a b = true) ↔
      (f.cell x y = f.cell a b ∧ f.lit x y = true) ∨
        (2 ≤ f.pointsAt rest a b ∨
          1 ≤ f.pointsAt rest a b ∧ (f.flip x y).lit a b = true) := by
  rw [lit_flip]
  by_cases hcell : f.cell x y = f.cell a b
  · rw [if_pos hcell, pointsAt_cons_of_eq hcell, f.lit_congr hcell]
    cases f.lit a b with
    | false => simp [hcell]; omega
    | true => simp [hcell]
  · rw [if_neg hcell, pointsAt_cons_of_ne hcell]
    simp [hcell]

/-- Some pixel is met lit: because it was, or because it is hit once more. -/
theorem collision_plot (collision : Bool) (f : Frame) (points : List (Nat × Nat)) :
    (f.plot collision points).1 = true ↔ collision = true ∨
      ∃ a b, 2 ≤ f.pointsAt points a b ∨ 1 ≤ f.pointsAt points a b ∧ f.lit a b = true := by
  induction points generalizing collision f with
  | nil => simp [plot, pointsAt]
  | cons point rest ih =>
    obtain ⟨x, y⟩ := point
    have hrest : ∀ a b, (f.flip x y).pointsAt rest a b = f.pointsAt rest a b := fun _ _ => rfl
    rw [plot, ih]
    simp only [hrest, f.meets_cons_iff x y rest, Bool.or_eq_true]
    constructor
    · rintro ((h | h) | ⟨a, b, h⟩)
      · exact .inl h
      · exact .inr ⟨x, y, .inl ⟨rfl, h⟩⟩
      · exact .inr ⟨a, b, .inr h⟩
    · rintro (h | ⟨a, b, ⟨-, h⟩ | h⟩)
      · exact .inl (.inl h)
      · exact .inl (.inr h)
      · exact .inr ⟨a, b, h⟩

theorem lit_draw (f : Frame) (x y : Nat) (sprite : List UInt8) {a b : Nat} (ha : a < f.width)
    (hb : b < f.height) :
    (f.draw x y sprite).2.lit a b =
      (f.lit a b ^^ decide (Odd (Sprite.hits f.width f.height x y sprite a b))) := by
  rw [draw, lit_plot, f.pointsAt_eq_hits x y sprite ha hb]

theorem size_pixels_draw (f : Frame) (x y : Nat) (sprite : List UInt8) :
    (f.draw x y sprite).2.pixels.size = f.pixels.size := by
  rw [draw, size_pixels, size_pixels, width_plot, height_plot]

/-- A draw meets a collision at a pixel of the frame, if it meets one at all. -/
theorem collision_draw (f : Frame) (x y : Nat) (sprite : List UInt8) :
    (f.draw x y sprite).1 = true ↔ ∃ a < f.width, ∃ b < f.height,
      2 ≤ Sprite.hits f.width f.height x y sprite a b ∨
        1 ≤ Sprite.hits f.width f.height x y sprite a b ∧ f.lit a b = true := by
  rw [draw, collision_plot, Bool.false_eq_true, false_or]
  constructor
  · rintro ⟨a, b, h⟩
    have hcell : f.cell a b = f.cell (a % f.width) (b % f.height) := by
      rw [cell_eq_cell_iff, Nat.mod_mod, Nat.mod_mod]
      exact ⟨rfl, rfl⟩
    have hcount : f.pointsAt (Sprite.points x y sprite) a b =
        f.pointsAt (Sprite.points x y sprite) (a % f.width) (b % f.height) := by
      simp only [pointsAt, hcell]
    have ha := Nat.mod_lt a f.width_pos
    have hb := Nat.mod_lt b f.height_pos
    rw [hcount, f.lit_congr hcell, f.pointsAt_eq_hits x y sprite ha hb] at h
    exact ⟨_, ha, _, hb, h⟩
  · rintro ⟨a, ha, b, hb, h⟩
    rw [← f.pointsAt_eq_hits x y sprite ha hb] at h
    exact ⟨a, b, h⟩

end Frame

/-- The bytes of a transfer stand at its addresses modulo the size of memory. -/
theorem Memory.readSpan_eq_map (m : Memory) (address : UInt16) (length : Nat) :
    m.readSpan address length =
      (List.range length).map fun k => m.read (UInt16.ofNat ((address.toNat + k) % 4096)) := by
  rw [readSpan, span, List.map_map]
  apply List.map_congr_left
  intro k _
  apply m.read_congr
  apply Fin.ext
  simp only [cell_val, UInt16.toNat_add, UInt16.toNat_ofNat']
  omega

namespace Machine

open Bare Instruction

theorem advance_of_draw {m : Machine} {x y n : Fin 16} (h : m.nextInstruction = .draw x y n) :
    m.advance = (m.mapRegisters Registers.advance).draw x y n := by
  rw [advance, h]
  rfl

/-- Drawing is counted bit by bit. A pixel is on afterwards if it was on and is hit an even number
of times, or was off and is hit an odd number of times; the collision is met if a pixel that is on
is hit or a pixel is hit twice; the frame is marked if it was or if a bit is set; its size stays.
Words and bytes suffice for it as long as the places fit into words. The draw instruction draws so
the bytes at the index register, at the old values of its two registers, and then sets the flag to
the collision. -/
theorem draw_counts_hits :
    (∀ (f : Frame) (x y : Nat) (sprite : List UInt8),
      let hits := Sprite.hits f.width f.height x y sprite
      let collision := (f.draw x y sprite).1
      let drawn := (f.draw x y sprite).2
      (∀ a < f.width, ∀ b < f.height,
          drawn.lit a b = (f.lit a b ^^ decide (Odd (hits a b)))) ∧
        (collision = true ↔ ∃ a < f.width, ∃ b < f.height,
          2 ≤ hits a b ∨ 1 ≤ hits a b ∧ f.lit a b = true) ∧
        (drawn.dirty = true ↔ f.dirty = true ∨ ∃ row ∈ sprite, row ≠ 0) ∧
        drawn.width = f.width ∧ drawn.height = f.height ∧
        drawn.pixels.size = f.pixels.size ∧
        (f.pixels.size ≤ maxAllocation → x + 7 < 2 ^ wordBits →
          y + sprite.length ≤ 2 ^ wordBits →
            f.bare.draw x y sprite = .ok (collision, drawn.bare) ∧
              ∀ pixel ∈ drawn.bare.pixels, pixel = 0 ∨ pixel = 1)) ∧
      ∀ (m : Machine) (x y n : Fin 16), m.isAwaiting = false →
        m.nextWord = wordXYN 0xD x.val y.val n.val →
        let sprite := (List.range n.val).map fun k =>
          m.memory.read (UInt16.ofNat ((m.registers.i.toNat + k) % 4096))
        let outcome := m.frame.draw (m.reg x).toNat (m.reg y).toNat sprite
        ∃ next, m.step = some (m.registers.pc, next) ∧ next.frame = outcome.2 ∧
          next.memory = m.memory ∧ next.registers.i = m.registers.i ∧
          ∀ z, next.reg z =
            if z = Layout.flagRegister then outcome.1.toUInt8 else m.reg z := by
  constructor
  · intro f x y sprite hits collision drawn
    have hdirty : (f.draw x y sprite).2.dirty = true ↔
        f.dirty = true ∨ ∃ row ∈ sprite, row ≠ 0 := by simp [Frame.dirty_draw]
    refine ⟨fun a ha b hb => f.lit_draw x y sprite ha hb, f.collision_draw x y sprite, hdirty,
      Frame.width_plot .., Frame.height_plot .., f.size_pixels_draw x y sprite, ?_⟩
    intro hsize hcolumn hrow
    exact ⟨Frame.draw_bare hsize hcolumn hrow, fun pixel => Frame.pixel_bare _⟩
  · intro m x y n hrun hword sprite outcome
    have hdraw : m.nextInstruction = .draw x y n := decode_of_eq_encode trivial hword
    have hsprite : sprite = m.memory.readSpan m.registers.i n.val :=
      (Memory.readSpan_eq_map ..).symm
    have hnext : m.advance = { m with
        frame := outcome.2, registers := m.registers.advance.setFlag outcome.1 } := by
      rw [advance_of_draw hdraw]
      simp only [outcome, hsprite]
      rfl
    refine ⟨m.advance, step_of_running hrun, ?_⟩
    rw [hnext]
    refine ⟨rfl, rfl, rfl, fun z => ?_⟩
    simp only [eq_comm (a := z)]
    exact Registers.get_set ..

/-- Three rows of a digit on a frame of three by two pixels, drawn by a program at the
coordinates that the flag register holds: the sprite meets itself, and pixels that are hit twice
or four times stay off. -/
theorem draw_counts_hits_of_small_frame :
    let m := (boot ⟨1, 3, 2⟩ (.ofSeed 7)).loaded [0xDF, 0xF3]
    let sprite : List UInt8 := [0xF0, 0x90, 0x90]
    let hits := Sprite.hits 3 2 0 0 sprite
    let outcome := m.frame.draw 0 0 sprite
    hits 0 0 = 4 ∧ hits 1 0 = 1 ∧ hits 0 1 = 2 ∧ outcome.1 = true ∧
      outcome.2.lit 0 0 = false ∧ outcome.2.lit 1 0 = true ∧ outcome.2.lit 0 1 = false ∧
      m.frame.bare.draw 0 0 sprite = .ok (outcome.1, outcome.2.bare) ∧
      m.isAwaiting = false ∧ m.nextWord = wordXYN 0xD 0xF 0xF 3 ∧
      ∃ next : Machine, m.step = some (0x200, next) ∧ next.frame = outcome.2 ∧
        next.reg Layout.flagRegister = 1 := by
  intro m sprite hits outcome
  obtain ⟨hlit, hcollision, -, -, -, -, hbytes⟩ := draw_counts_hits.1 m.frame 0 0 sprite
  have htwice : hits 0 1 = 2 := by decide
  have hmet : outcome.1 = true :=
    hcollision.mpr ⟨0, by decide, 1, by decide, .inl (Nat.le_of_eq htwice.symm)⟩
  have hword : m.nextWord = wordXYN 0xD 0xF 0xF 3 := by decide +kernel
  have hsprite : (List.range (3 : Fin 16).val).map (fun k =>
      m.memory.read (UInt16.ofNat ((m.registers.i.toNat + k) % 4096))) = sprite := by
    decide +kernel
  have hzero : (m.reg 0xF).toNat = 0 := by decide
  obtain ⟨next, hstep, hframe, -, -, hreg⟩ := draw_counts_hits.2 m 0xF 0xF 3 rfl hword
  rw [hsprite, hzero] at hframe hreg
  have hflag : next.reg Layout.flagRegister = 1 := by
    rw [hreg, if_pos rfl]
    exact congrArg Bool.toUInt8 hmet
  exact ⟨by decide, by decide, htwice, hmet, (hlit 0 (by decide) 0 (by decide)).trans (by decide),
    (hlit 1 (by decide) 0 (by decide)).trans (by decide),
    (hlit 0 (by decide) 1 (by decide)).trans (by decide),
    (hbytes (by decide) (by decide) (by decide)).1, rfl, hword, next, hstep, hframe, hflag⟩

end Machine
end ChipEight
