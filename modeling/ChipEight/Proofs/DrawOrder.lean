import Mathlib.Data.Nat.ModEq
import ChipEight.Proofs.SpriteHits

/-!
Lists of draws. Their points are flipped one after the other, so what a pixel becomes depends only
on how many points lie on it: the order of the draws does not matter, and drawing everything twice
changes nothing. A place matters modulo the size of the frame.
-/
namespace ChipEight

structure Placement where
  x : Nat
  y : Nat
  sprite : List UInt8
deriving DecidableEq, Repr

namespace Placement

def points (p : Placement) : List (Nat × Nat) := Sprite.points p.x p.y p.sprite

/-- The same sprite at places that are one place of a torus. -/
def SameOn (width height : Nat) (p q : Placement) : Prop :=
  p.x % width = q.x % width ∧ p.y % height = q.y % height ∧ p.sprite = q.sprite

end Placement

namespace Frame

def drawAll (f : Frame) : List Placement → List Bool × Frame
  | [] => ([], f)
  | p :: rest =>
    let (collision, f) := f.draw p.x p.y p.sprite
    let (collisions, f) := f.drawAll rest
    (collision :: collisions, f)

/-- The collision so far does not matter to the pixels. -/
theorem frame_plot (collision met : Bool) (f : Frame) (points : List (Nat × Nat)) :
    (f.plot collision points).2 = (f.plot met points).2 := by
  induction points generalizing collision met f with
  | nil => rfl
  | cons point rest ih => exact ih ..

theorem frame_drawAll (f : Frame) (draws : List Placement) :
    (f.drawAll draws).2 = (f.plot false (draws.flatMap Placement.points)).2 := by
  induction draws generalizing f with
  | nil => rfl
  | cons p rest ih =>
    calc
      (f.drawAll (p :: rest)).2 = ((f.draw p.x p.y p.sprite).2.drawAll rest).2 := rfl
      _ = ((f.plot false p.points).2.plot false (rest.flatMap Placement.points)).2 := ih _
      _ = (f.plot false ((p :: rest).flatMap Placement.points)).2 := by
        rw [List.flatMap_cons, plot_append, frame_plot]

@[simp] theorem width_drawAll (f : Frame) (draws : List Placement) :
    (f.drawAll draws).2.width = f.width := by
  rw [frame_drawAll, width_plot]

@[simp] theorem height_drawAll (f : Frame) (draws : List Placement) :
    (f.drawAll draws).2.height = f.height := by
  rw [frame_drawAll, height_plot]

theorem pointsAt_perm (f : Frame) {points others : List (Nat × Nat)} (h : points.Perm others)
    (a b : Nat) : f.pointsAt points a b = f.pointsAt others a b :=
  h.countP_eq _

theorem drawAll_append (f : Frame) (draws others : List Placement) :
    (f.drawAll (draws ++ others)).2 = ((f.drawAll draws).2.drawAll others).2 := by
  induction draws generalizing f with
  | nil => rfl
  | cons p rest ih => exact ih _

/-- The points of a list of draws are those of the list in any order. -/
theorem drawAll_perm (f : Frame) {draws others : List Placement} (h : draws.Perm others) :
    (f.drawAll others).2 = (f.drawAll draws).2 := by
  have hpoints := (h.flatMap_right Placement.points).symm
  rw [frame_drawAll, frame_drawAll]
  apply ext_lit
  · rw [width_plot, width_plot]
  · rw [height_plot, height_plot]
  · rw [dirty_plot, dirty_plot, hpoints.isEmpty_eq]
  · intro a b
    rw [lit_plot, lit_plot, f.pointsAt_perm hpoints]

/-- Frames of one size with the same pixels, whether they wait to be shown or not. -/
theorem pixels_eq_of_lit {f g : Frame} (hwidth : f.width = g.width)
    (hheight : f.height = g.height) (hlit : ∀ a b, f.lit a b = g.lit a b) :
    f.pixels = g.pixels := by
  have hshown : f.shown = g.shown := ext_lit hwidth hheight rfl hlit
  have hpixels : f.shown.pixels = g.shown.pixels := by rw [hshown]
  exact hpixels

/-- With each draw and its repetition an even number of points lies on every pixel. -/
theorem pixels_drawAll_twice (f : Frame) {draws others : List Placement}
    (h : draws.Perm others) : ((f.drawAll draws).2.drawAll others).2.pixels = f.pixels := by
  rw [← drawAll_append]
  apply pixels_eq_of_lit
  · exact width_drawAll ..
  · exact height_drawAll ..
  · intro a b
    have hcount : f.pointsAt ((draws ++ others).flatMap Placement.points) a b =
        f.pointsAt (draws.flatMap Placement.points) a b +
          f.pointsAt (draws.flatMap Placement.points) a b := by
      rw [List.flatMap_append, pointsAt, List.countP_append, ← pointsAt, ← pointsAt,
        f.pointsAt_perm (h.flatMap_right Placement.points)]
    have heven : ¬ Odd (f.pointsAt ((draws ++ others).flatMap Placement.points) a b) := by
      rw [hcount, Nat.not_odd_iff_even]
      exact Even.add_self _
    rw [frame_drawAll, lit_plot, decide_eq_false heven, Bool.xor_false]

theorem flip_congr (f : Frame) {x y u v : Nat} (h : f.cell x y = f.cell u v) :
    f.flip x y = f.flip u v := by
  simp only [flip, f.lit_congr h, h]

/-- Plotting depends on the cells of the points only. -/
theorem plot_congr_cells (collision : Bool) (f : Frame) {points others : List (Nat × Nat)}
    (h : points.map (fun (x, y) => f.cell x y) = others.map fun (x, y) => f.cell x y) :
    f.plot collision points = f.plot collision others := by
  induction points generalizing collision f others with
  | nil => rw [List.map_eq_nil_iff.mp h.symm]
  | cons point rest ih =>
    cases others with
    | nil => cases h
    | cons other tail =>
      obtain ⟨hcell, htail⟩ := List.cons.inj h
      rw [plot, plot, f.lit_congr hcell, f.flip_congr hcell]
      exact ih _ _ htail

theorem cells_rowPoints (f : Frame) {x y u v : Nat} (hx : x % f.width = u % f.width)
    (hy : y % f.height = v % f.height) (row : UInt8) :
    (Sprite.rowPoints x y row).map (fun (a, b) => f.cell a b) =
      (Sprite.rowPoints u v row).map fun (a, b) => f.cell a b := by
  rw [Sprite.rowPoints, Sprite.rowPoints, List.map_map, List.map_map]
  apply List.map_congr_left
  intro column _
  exact (f.cell_eq_cell_iff ..).mpr ⟨Nat.ModEq.add_right column hx, hy⟩

theorem cells_points (f : Frame) {x y u v : Nat} (hx : x % f.width = u % f.width)
    (hy : y % f.height = v % f.height) (sprite : List UInt8) :
    (Sprite.points x y sprite).map (fun (a, b) => f.cell a b) =
      (Sprite.points u v sprite).map fun (a, b) => f.cell a b := by
  induction sprite generalizing y v with
  | nil => rfl
  | cons row rest ih =>
    rw [Sprite.points, Sprite.points, List.map_append, List.map_append,
      f.cells_rowPoints hx hy row, ih (Nat.ModEq.add_right 1 hy)]

theorem draw_congr (f : Frame) {p q : Placement} (h : p.SameOn f.width f.height q) :
    f.draw p.x p.y p.sprite = f.draw q.x q.y q.sprite := by
  obtain ⟨hx, hy, hsprite⟩ := h
  rw [draw, draw, hsprite]
  exact f.plot_congr_cells false (f.cells_points hx hy q.sprite)

theorem drawAll_congr (f : Frame) {draws others : List Placement}
    (h : List.Forall₂ (Placement.SameOn f.width f.height) draws others) :
    f.drawAll others = f.drawAll draws := by
  induction draws generalizing f others with
  | nil => rw [List.forall₂_nil_left_iff.mp h]
  | cons p rest ih =>
    obtain ⟨q, tail, hplace, htail, rfl⟩ := List.forall₂_cons_left_iff.mp h
    rw [drawAll, drawAll, f.draw_congr hplace]
    -- the draw leaves the size of the frame as it is
    have hafter : List.Forall₂ (Placement.SameOn (f.draw q.x q.y q.sprite).2.width
        (f.draw q.x q.y q.sprite).2.height) rest tail := by
      rwa [draw, width_plot, height_plot]
    dsimp only
    rw [ih _ hafter]

/-- A pixel that is hit twice is met at any rate. Otherwise it is hit once or not at all. -/
theorem meets_again_iff (hits : Nat) (lit : Bool) :
    (2 ≤ hits ∨ 1 ≤ hits ∧ (lit ^^ decide (Odd hits)) = true) ↔
      (Odd hits ∧ lit = false) ∨ 2 ≤ hits := by
  by_cases htwice : 2 ≤ hits
  · exact iff_of_true (.inl htwice) (.inr htwice)
  · obtain rfl | rfl : hits = 0 ∨ hits = 1 := by omega
    · simp
    · simp

/-- The second of two equal draws finds the pixels that the first one left on. -/
theorem collision_draw_twice (f : Frame) (x y : Nat) (sprite : List UInt8) :
    ((f.draw x y sprite).2.draw x y sprite).1 = true ↔ ∃ a < f.width, ∃ b < f.height,
      (Odd (Sprite.hits f.width f.height x y sprite a b) ∧ f.lit a b = false) ∨
        2 ≤ Sprite.hits f.width f.height x y sprite a b := by
  have hwidth : (f.draw x y sprite).2.width = f.width := width_plot ..
  have hheight : (f.draw x y sprite).2.height = f.height := height_plot ..
  rw [collision_draw, hwidth, hheight]
  constructor
  · rintro ⟨a, ha, b, hb, h⟩
    rw [f.lit_draw x y sprite ha hb, meets_again_iff] at h
    exact ⟨a, ha, b, hb, h⟩
  · rintro ⟨a, ha, b, hb, h⟩
    refine ⟨a, ha, b, hb, ?_⟩
    rw [f.lit_draw x y sprite ha hb, meets_again_iff]
    exact h

/-- The draws of a list may be made in any order, and a second time, in any order, they restore
the pixels. Places that are equal modulo the size of the frame give the same frame and the same
collisions. A draw that is repeated at once collides where it hit a dark pixel an odd number of
times, and wherever it hits a pixel twice. -/
theorem draws_commute_and_cancel (f : Frame) (draws : List Placement) :
    (∀ others, draws.Perm others →
        (f.drawAll others).2 = (f.drawAll draws).2 ∧
          ((f.drawAll draws).2.drawAll others).2.pixels = f.pixels) ∧
      (∀ others, List.Forall₂ (Placement.SameOn f.width f.height) draws others →
        f.drawAll others = f.drawAll draws) ∧
      ∀ (x y : Nat) (sprite : List UInt8),
        let hits := Sprite.hits f.width f.height x y sprite
        ((f.draw x y sprite).2.draw x y sprite).1 = true ↔
          ∃ a < f.width, ∃ b < f.height,
            (Odd (hits a b) ∧ f.lit a b = false) ∨ 2 ≤ hits a b := by
  exact ⟨fun others h => ⟨f.drawAll_perm h, f.pixels_drawAll_twice h⟩,
    fun others h => f.drawAll_congr h, fun x y sprite => f.collision_draw_twice x y sprite⟩

/-- Two draws on a frame of three by two pixels, the first of which meets itself, in the other
order and at places beyond the frame. -/
theorem draws_commute_and_cancel_on_small_frame :
    let f := blank 3 2
    let p : Placement := ⟨2, 1, [0xF0, 0x90, 0x80]⟩
    let q : Placement := ⟨0, 1, [0xC0]⟩
    let q' : Placement := ⟨3, 7, [0xC0]⟩
    [p, q].Perm [q, p] ∧ (f.drawAll [q, p]).2 = (f.drawAll [p, q]).2 ∧
      ((f.drawAll [p, q]).2.drawAll [q, p]).2.pixels = f.pixels ∧
      List.Forall₂ (Placement.SameOn 3 2) [p, q] [p, q'] ∧
      f.drawAll [p, q'] = f.drawAll [p, q] ∧ (f.drawAll [p, q]).1 = [true, true] := by
  intro f p q q'
  have hswap : [p, q].Perm [q, p] := .swap q p []
  have hsame : List.Forall₂ (Placement.SameOn 3 2) [p, q] [p, q'] :=
    .cons ⟨rfl, rfl, rfl⟩ (.cons ⟨by decide, by decide, rfl⟩ .nil)
  obtain ⟨hperm, hcongr, -⟩ := draws_commute_and_cancel f [p, q]
  exact ⟨hswap, (hperm [q, p] hswap).1, (hperm [q, p] hswap).2, hsame, hcongr [p, q'] hsame,
    by decide⟩

end Frame
end ChipEight
