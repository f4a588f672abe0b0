import ChipEight.Frame

/-!
Drawing flips one pixel after the other. It keeps the size of the frame, and it marks the frame as
changed exactly when the sprite has a set bit.
-/
namespace ChipEight

namespace Sprite

theorem rowPoints_eq_nil_iff (x y : Nat) (row : UInt8) : rowPoints x y row = [] ↔ row = 0 := by
  simp only [rowPoints, List.map_eq_nil_iff, List.filter_eq_nil_iff, List.mem_range]
  constructor
  · intro h
    apply UInt8.toNat_inj.mp
    apply Nat.eq_of_testBit_eq
    intro k
    rw [UInt8.toNat_zero, Nat.zero_testBit]
    by_cases hk : k < 8
    · have hcolumn := h (7 - k) (by simp only [Layout.spriteWidth]; omega)
      have hplace : 7 - (7 - k) = k := by omega
      rw [hplace] at hcolumn
      exact Bool.eq_false_iff.mpr hcolumn
    · apply Nat.testBit_lt_two_pow
      calc
        row.toNat < 2 ^ 8 := row.toNat_lt
        _ ≤ 2 ^ k := Nat.pow_le_pow_right (by decide) (Nat.not_lt.mp hk)
  · rintro rfl column _
    simp

/-- A sprite without points is one without set bits. -/
theorem points_eq_nil_iff (x y : Nat) (sprite : List UInt8) :
    points x y sprite = [] ↔ ∀ row ∈ sprite, row = 0 := by
  induction sprite generalizing y with
  | nil => simp [points]
  | cons row rest ih => simp [points, rowPoints_eq_nil_iff, ih]

end Sprite

namespace Frame

theorem plot_append (collision : Bool) (f : Frame) (first second : List (Nat × Nat)) :
    f.plot collision (first ++ second) =
      (f.plot collision first).2.plot (f.plot collision first).1 second := by
  induction first generalizing collision f with
  | nil => rfl
  | cons point rest ih => exact ih ..

@[simp] theorem width_plot (collision : Bool) (f : Frame) (points : List (Nat × Nat)) :
    (f.plot collision points).2.width = f.width := by
  induction points generalizing collision f with
  | nil => rfl
  | cons point rest ih => exact ih ..

@[simp] theorem height_plot (collision : Bool) (f : Frame) (points : List (Nat × Nat)) :
    (f.plot collision points).2.height = f.height := by
  induction points generalizing collision f with
  | nil => rfl
  | cons point rest ih => exact ih ..

theorem dirty_plot (collision : Bool) (f : Frame) (points : List (Nat × Nat)) :
    (f.plot collision points).2.dirty = (f.dirty || !points.isEmpty) := by
  induction points generalizing collision f with
  | nil => simp [plot]
  | cons point rest ih => simp [plot, flip, ih]

theorem dirty_draw (f : Frame) (x y : Nat) (sprite : List UInt8) :
    (f.draw x y sprite).2.dirty = (f.dirty || sprite.any (· != 0)) := by
  rw [draw, dirty_plot]
  congr 1
  rw [Bool.eq_iff_iff]
  simp [Sprite.points_eq_nil_iff]

end Frame
end ChipEight
