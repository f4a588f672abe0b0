import ChipEight.Console

/-!
The operations of a console as data, so that whole sessions are lists of them, and the way one of
them reaches a console with its peripherals connected.
-/
namespace ChipEight

inductive Action
  | load (program : List UInt8) (autoplay : Bool)
  | loadRom (chunks : List Chunk) (autoplay : Bool)
  | play
  | pause
  | stop
  | replay
  | reset
  | setCycles (cycles : Nat)
  | tick
  | stepOnce
  | setKey (key : UInt8) (pressed : Bool)

namespace Console

def perform (c : Console) : Action → Except Rejection Outcome
  | .load program autoplay => c.load program autoplay
  | .loadRom chunks autoplay => c.loadRom chunks autoplay
  | .play => .ok c.play
  | .pause => .ok c.pause
  | .stop => .ok c.stop
  | .replay => c.replay
  | .reset => .ok c.reset
  | .setCycles cycles => c.setCycles cycles
  | .tick => .ok c.tick
  | .stepOnce => .ok c.stepOnce
  | .setKey key pressed => c.setKey key pressed

structure Acted (σ : Type) where
  refusal : Option Rejection
  console : Console
  world : σ

variable {σ : Type} [Peripherals σ]

/-- A refused action leaves the console and the peripherals alone. -/
def act (c : Console) (world : σ) (action : Action) : Acted σ :=
  match c.perform action with
  | .error rejection => ⟨some rejection, c, world⟩
  | .ok (console, signals) => ⟨none, console, Peripherals.deliver world signals⟩

/-- A whole session, refusals passed over. -/
def actAll (c : Console) (world : σ) : List Action → Console × σ
  | [] => (c, world)
  | action :: rest =>
    let acted := c.act world action
    acted.console.actAll acted.world rest

end Console
end ChipEight
