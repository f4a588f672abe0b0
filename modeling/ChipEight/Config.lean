import ChipEight.Rejection

/-!
What may be chosen before a machine is built: the size of the display and the number of
instructions in one tick.
-/
namespace ChipEight

def checkCycles (cycles : Nat) : Except Rejection Nat :=
  if Layout.minCycles ≤ cycles ∧ cycles ≤ Layout.maxCycles then .ok cycles
  else .error (.cyclesOutOfRange cycles)

structure Config where
  cycles : Nat
  width : Nat
  height : Nat
deriving DecidableEq, Repr

namespace Config

def standard : Config := ⟨Layout.defaultCycles, Layout.displayWidth, Layout.displayHeight⟩

def withCycles (c : Config) (cycles : Nat) : Except Rejection Config :=
  match checkCycles cycles with
  | .ok cycles => .ok { c with cycles }
  | .error rejection => .error rejection

def withDisplay (c : Config) (width height : Nat) : Except Rejection Config :=
  if width = 0 ∨ height = 0 then .error (.emptyDisplay width height)
  else .ok { c with width, height }

end Config
end ChipEight
