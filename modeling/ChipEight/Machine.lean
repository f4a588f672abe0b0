import ChipEight.Config
import ChipEight.Frame
import ChipEight.Keypad
import ChipEight.Memory
import ChipEight.Random
import ChipEight.Registers
import ChipEight.Timers

/-!
The state of the whole machine and the events that reach it from outside. Loading a program and
resetting start every part afresh but for the random bytes, whose used part never comes back.
-/
namespace ChipEight

structure Machine where
  config : Config
  random : RandomBytes
  memory : Memory
  registers : Registers
  timers : Timers
  frame : Frame
  keypad : Keypad

namespace Machine

def boot (config : Config) (random : RandomBytes) : Machine where
  config := config
  random := random
  memory := .initial
  registers := .initial
  timers := .initial
  frame := .blank config.width config.height
  keypad := .initial

def reset (m : Machine) : Machine := boot m.config m.random

/-- A refused program leaves no machine behind: the caller keeps the one it has. -/
def load (m : Machine) (program : List UInt8) : Except Rejection Machine :=
  match Memory.initial.load program with
  | .ok memory => .ok { m.reset with memory }
  | .error rejection => .error rejection

def isAwaiting (m : Machine) : Bool := m.keypad.isAwaiting

def isPressed (m : Machine) (key : UInt8) : Bool := m.keypad.isPressed key

/-- A press while a key is awaited also stores the key in the awaited register. -/
def setKey (m : Machine) (key : UInt8) (pressed : Bool) : Except Rejection Machine :=
  match m.keypad.setKey key pressed with
  | .error rejection => .error rejection
  | .ok keypad =>
    match m.keypad.awaited pressed with
    | some x => .ok { m with keypad, registers := m.registers.set x key }
    | none => .ok { m with keypad }

/-- One tick of the timers, and whether it ends the sound. -/
def advanceTimers (m : Machine) : Bool × Machine :=
  (m.timers.soundEnds, { m with timers := m.timers.advance })

/-- The frame if it has changed since it was last taken. -/
def takeFrame (m : Machine) : Option Frame × Machine :=
  if m.frame.dirty then (some m.frame.shown, { m with frame := m.frame.shown }) else (none, m)

end Machine
end ChipEight
