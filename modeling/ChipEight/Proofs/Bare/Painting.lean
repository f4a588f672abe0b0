import ChipEight.Proofs.Bare.Frame

/-!
Frames that are painted: a blank frame of some size, and any draws and clears of it that do
not break down. Whatever the places and the sprites, the frame keeps its size, it has one byte
for each pixel, and each of these bytes stays a zero or a one. So every painted frame is a
frame of the machine.
-/
namespace ChipEight

namespace Bare

/-- What is done to a frame; showing it only takes its mark away. -/
inductive Paint
  | draw (x y : Nat) (sprite : List UInt8)
  | clear
  | show
deriving DecidableEq, Repr

deriving instance DecidableEq for Frame

namespace Frame

def paint (f : Frame) : Paint → Guarded Frame
  | .draw x y sprite => do
    let (_, drawn) ← f.draw x y sprite
    return drawn
  | .clear => return f.clear
  | .show => return f.shown

def painted (width height : Nat) (paints : List Paint) : Guarded Frame := do
  let f ← blank width height
  paints.foldlM paint f

/-- A frame of this size with a zero or a one for each of its pixels. -/
structure Binary (width height : Nat) (f : Frame) : Prop where
  width_eq : f.width = width
  height_eq : f.height = height
  size_eq : f.pixels.size = width * height
  pixel : ∀ pixel ∈ f.pixels, pixel = 0 ∨ pixel = 1

namespace Binary

variable {width height : Nat} {f g : Frame}

theorem blank (h : Frame.blank width height = .ok f) :
    Binary (max width 1) (max height 1) f := by
  obtain ⟨size, hsize, h⟩ := exists_of_bind_eq_ok h
  obtain ⟨-, -, h⟩ := exists_of_bind_eq_ok h
  obtain ⟨-, rfl⟩ := of_require_eq_ok hsize
  cases h
  exact ⟨rfl, rfl, Array.size_replicate, fun pixel h => .inl (Array.eq_of_mem_replicate h)⟩

/-- One pixel is exchanged for the other one. -/
theorem flip (hf : Binary width height f) {column row : Nat} {met : Bool}
    (h : f.flip column row = .ok (met, g)) : Binary width height g := by
  obtain ⟨_, -, h⟩ := exists_of_bind_eq_ok h
  obtain ⟨_, -, h⟩ := exists_of_bind_eq_ok h
  obtain ⟨_, -, h⟩ := exists_of_bind_eq_ok h
  obtain ⟨pixel, hpixel, h⟩ := exists_of_bind_eq_ok h
  obtain ⟨pixels, hput, h⟩ := exists_of_bind_eq_ok h
  obtain ⟨hplace, rfl⟩ := exists_of_put_eq_ok hput
  cases h
  have hflipped : pixel ^^^ 1 = 0 ∨ pixel ^^^ 1 = 1 := by
    rcases hf.pixel pixel (mem_of_get_eq_ok hpixel) with rfl | rfl
    · exact .inr rfl
    · exact .inl rfl
  refine ⟨hf.width_eq, hf.height_eq, (Array.size_set hplace).trans hf.size_eq,
    fun other hother => ?_⟩
  rcases Array.mem_or_eq_of_mem_set (w := hplace) hother with hold | rfl
  · exact hf.pixel other hold
  · exact hflipped

theorem drawBit {x row : Nat} {bits : UInt8} {column : Nat} {state next : Bool × Frame}
    (hf : Binary width height state.2) (h : Frame.drawBit x row bits state column = .ok next) :
    Binary width height next.2 := by
  obtain ⟨_, -, h⟩ := exists_of_bind_eq_ok h
  obtain ⟨_, -, h⟩ := exists_of_bind_eq_ok h
  split at h
  · cases h
    exact hf
  · obtain ⟨_, -, h⟩ := exists_of_bind_eq_ok h
    obtain ⟨⟨met, g⟩, hflip, h⟩ := exists_of_bind_eq_ok h
    cases h
    exact hf.flip hflip

theorem drawRows {x y : Nat} {sprite : List UInt8} {state last : Bool × Frame}
    (hf : Binary width height state.2) (h : Frame.drawRows x y sprite state = .ok last) :
    Binary width height last.2 := by
  induction sprite generalizing y state with
  | nil =>
    cases h
    exact hf
  | cons bits rest ih =>
    obtain ⟨_, -, h⟩ := exists_of_bind_eq_ok h
    obtain ⟨_, -, h⟩ := exists_of_bind_eq_ok h
    obtain ⟨next, hnext, h⟩ := exists_of_bind_eq_ok h
    exact ih (foldlM_keeps (P := fun state => Binary width height state.2) drawBit hf hnext) h

theorem clear (hf : Binary width height f) : Binary width height f.clear where
  width_eq := hf.width_eq
  height_eq := hf.height_eq
  size_eq := Array.size_map.trans hf.size_eq
  pixel pixel h := by
    obtain ⟨-, -, rfl⟩ := Array.mem_map.mp h
    exact .inl rfl

theorem paint (hf : Binary width height f) {paint : Paint} (h : f.paint paint = .ok g) :
    Binary width height g := by
  cases paint with
  | draw x y sprite =>
    obtain ⟨⟨collision, drawn⟩, hdraw, h⟩ := exists_of_bind_eq_ok h
    cases h
    have hstart : Binary width height ((false, f) : Bool × Frame).2 := hf
    exact hstart.drawRows hdraw
  | clear =>
    cases h
    exact hf.clear
  | «show» =>
    cases h
    exact ⟨hf.width_eq, hf.height_eq, hf.size_eq, hf.pixel⟩

/-- Any paints. -/
theorem painted {paints : List Paint} (h : Frame.painted width height paints = .ok f) :
    Binary (max width 1) (max height 1) f := by
  obtain ⟨new, hblank, h⟩ := exists_of_bind_eq_ok h
  exact foldlM_keeps (fun hf hpaint => hf.paint hpaint) (blank hblank) h

end Binary
end Frame
end Bare

/-- A frame of zeros and ones, with at least one pixel, is a frame of the machine. -/
theorem Frame.exists_bare {width height : Nat} (hwidth : 0 < width) (hheight : 0 < height)
    {f : Bare.Frame} (hf : f.Binary width height) :
    ∃ g : Frame, g.bare = f ∧ g.width = width ∧ g.height = height := by
  refine ⟨⟨width, height, f.pixels.map (· == 1), f.dirty, hwidth, hheight,
    Array.size_map.trans hf.size_eq⟩, ?_, rfl, rfl⟩
  have hpixels : (f.pixels.map (· == 1)).map Bool.toUInt8 = f.pixels := by
    rw [Array.map_map]
    refine (Array.map_congr_left fun pixel h => ?_).trans (Array.map_id f.pixels)
    rcases hf.pixel pixel h with rfl | rfl <;> rfl
  rw [bare, hpixels]
  obtain ⟨rfl, rfl, -, -⟩ := hf
  rfl

end ChipEight
