import ChipEight.Machine.Run
import ChipEight.Note

/-!
What the machine tells while it works. Each function looks at the state in which something is
about to happen and lists the notes of it, so the machine itself stays free of them.
-/
namespace ChipEight

namespace Memory

/-- One note for each address beyond the end of memory. -/
def wrapNotes (addresses : List UInt16) : List Note :=
  (addresses.filter fun a => decide (Layout.memorySize ≤ a.toNat)).map .addressWraps

end Memory

namespace Frame

def blankNotes (width height : Nat) : List Note :=
  if width = 0 ∨ height = 0 then [.frameRaised width height] else []

end Frame

namespace Machine

/-- The notes of executing an instruction once the program counter has moved past it. -/
def executeNotes (m : Machine) : Instruction → List Note
  | .ret => if m.registers.stack = [] then [.returnIgnored (m.registers.pc - 2)] else []
  | .draw _ _ n => Memory.wrapNotes (Memory.span m.registers.i n.val)
  | .awaitKey x => [.awaiting x]
  | .storeDecimal _ => Memory.wrapNotes (Memory.span m.registers.i 3)
  | .storeRegisters x => Memory.wrapNotes (Memory.span m.registers.i (x.val + 1))
  | .loadRegisters x => Memory.wrapNotes (Memory.span m.registers.i (x.val + 1))
  | _ => []

def stepNotes (m : Machine) : List Note :=
  if m.isAwaiting then []
  else
    let pc := m.registers.pc
    Memory.wrapNotes (Memory.span pc 2) ++
      .fetched m.nextWord m.registers.v m.registers.i pc ::
        (m.mapRegisters Registers.advance).executeNotes m.nextInstruction

def cycleNotes : Nat → Machine → List Note
  | 0, _ => []
  | n + 1, m =>
    match m.step with
    | none => []
    | some (_, next) => m.stepNotes ++ cycleNotes n next

def timerNotes (m : Machine) : List Note := if m.timers.soundEnds then [.soundEnded] else []

def tickNotes (budget : Nat) (m : Machine) : List Note :=
  m.cycleNotes budget ++ (m.cycle budget).2.timerNotes

def keyNotes (m : Machine) (key : UInt8) (pressed : Bool) : List Note :=
  match m.keypad.awaited pressed with
  | some x => [.resumed key x]
  | none => []

end Machine
end ChipEight
