import ChipEight.Desktop.Host

/-!
A window that shows frames. Its size is the size of the display times a scale; a dimension of 2^31
or more is turned down before the window is asked for.
-/
namespace ChipEight.Desktop.Display

open Host

def title : String := "chipvm"

/-- Dimensions are cut to thirty-two bits. -/
def windowSide (side scale : Nat) : UInt32 := UInt32.ofNat (side * scale)

def maxSide : Nat := 0x80000000

def createWindow (width height : UInt32) : HostM Unit := do
  if maxSide ≤ width.toNat then
    throw s!"Window width ({width}) is too high."
  else if maxSide ≤ height.toNat then
    throw s!"Window height ({width}) is too high."
  else creating (demand .window (.window title width height))

def setUp (width height scale : Nat) : HostM Unit := do
  startSubsystem .video
  createWindow (windowSide width scale) (windowSide height scale)
  creating (demand .renderer .renderer)

/-- Uploads the frame as a texture and stretches it over the whole window. -/
def render (f : Frame) : HostM Unit := do
  creating (demand .texture (.texture (UInt32.ofNat f.width) (UInt32.ofNat f.height)))
  allow .textureLock
  let surface := (← get).surface f.width f.height
  ask (.pixels f.width f.height (Texture.upload f surface))
  demand .copy .copy
  ask .present

def clear : HostM Unit := do
  ask (.color 0 0 0 255)
  ask .clear
  ask .present

end ChipEight.Desktop.Display
