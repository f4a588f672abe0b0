import ChipEight.Frame
import ChipEight.Note
import ChipEight.Observation

/-!
What a console sends to the world around it, and the peripherals that receive it. Showing a frame,
blanking the screen and beeping may fail; a failure becomes a note and nothing else.
-/
namespace ChipEight

inductive Signal
  | render (frame : Frame)
  | clear
  | beep
  | loaded (listing : Listing)
  | forget
  | observe (observation : Observation)
  | note (note : Note)

class Peripherals (σ : Type) where
  render : Frame → σ → Except String Unit × σ
  clear : σ → Except String Unit × σ
  beep : σ → Except String Unit × σ
  loaded : Listing → σ → σ
  forget : σ → σ
  observe : Observation → σ → σ
  note : Note → σ → σ

namespace Peripherals

variable {σ : Type} [Peripherals σ]

/-- Turns a failure into a note. -/
def settle (explain : String → Note) : Except String Unit × σ → σ
  | (.ok _, world) => world
  | (.error cause, world) => note (explain cause) world

def receive (world : σ) : Signal → σ
  | .render frame => settle .renderFailed (render frame world)
  | .clear => settle .clearFailed (clear world)
  | .beep => settle .beepFailed (beep world)
  | .loaded listing => loaded listing world
  | .forget => forget world
  | .observe observation => observe observation world
  | .note n => note n world

def deliver (world : σ) (signals : List Signal) : σ := signals.foldl receive world

end Peripherals
end ChipEight
