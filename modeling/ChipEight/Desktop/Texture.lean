import ChipEight.Frame

/-!
Frames as pictures of three bytes for each pixel. A surface has rows that may be longer than the
picture needs; uploading a frame writes the rows of its picture to their places and leaves the
rest of each row as it was.
-/
namespace ChipEight.Desktop

structure Surface where
  pitch : Nat
  bytes : Array UInt8
deriving DecidableEq

namespace Texture

def intensity (on : Bool) : UInt8 := if on then 255 else 0

/-- The picture without gaps between its rows. -/
def picture (f : Frame) : Array UInt8 :=
  f.pixels.flatMap fun on => #[intensity on, intensity on, intensity on]

def pictureRow (f : Frame) (y : Nat) : List UInt8 :=
  ((picture f).extract (y * (3 * f.width)) ((y + 1) * (3 * f.width))).toList

def copyTo (bytes : Array UInt8) (place : Nat) : List UInt8 → Array UInt8
  | [] => bytes
  | byte :: rest => copyTo (bytes.setIfInBounds place byte) (place + 1) rest

def upload (f : Frame) (s : Surface) : Surface :=
  { s with
    bytes := (List.range f.height).foldl
      (fun bytes y => copyTo bytes (y * s.pitch) (pictureRow f y)) s.bytes }

end Texture

namespace Surface

/-- What a picture shows at a pixel: fully on, fully off, or neither. -/
def shade (s : Surface) (x y : Nat) : Option Bool :=
  let place := y * s.pitch + 3 * x
  match s.bytes[place]?, s.bytes[place + 1]?, s.bytes[place + 2]? with
  | some r, some g, some b =>
    if r = 255 ∧ g = 255 ∧ b = 255 then some true
    else if r = 0 ∧ g = 0 ∧ b = 0 then some false
    else none
  | _, _, _ => none

def shades (s : Surface) (width height : Nat) : List (List (Option Bool)) :=
  (List.range height).map fun y => (List.range width).map fun x => s.shade x y

end Surface
end ChipEight.Desktop
