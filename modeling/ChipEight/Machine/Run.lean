import ChipEight.Listing
import ChipEight.Machine.Execute

/-!
Running the machine. A step fetches the word at the program counter, moves past it and executes
it; while a key is awaited there is no step. A tick runs a budget of steps, ends early at a wait
for a key, and always lets the timers count down once.
-/
namespace ChipEight

structure Tick where
  executed : List Nat
  beep : Bool
deriving DecidableEq, Repr

namespace Machine

def nextWord (m : Machine) : UInt16 := m.memory.readWord m.registers.pc

def nextInstruction (m : Machine) : Instruction := .decode m.nextWord

/-- Executes the next instruction, awaited key or not. -/
def advance (m : Machine) : Machine :=
  (m.mapRegisters Registers.advance).execute m.nextInstruction

def step (m : Machine) : Option (UInt16 × Machine) :=
  if m.isAwaiting then none else some (m.registers.pc, m.advance)

/-- The addresses executed by at most `n` steps and the machine after them. -/
def cycle : Nat → Machine → List UInt16 × Machine
  | 0, m => ([], m)
  | n + 1, m =>
    match m.step with
    | none => ([], m)
    | some (address, next) =>
      let (rest, last) := cycle n next
      (address :: rest, last)

def tick (budget : Nat) (m : Machine) : Tick × Machine :=
  let (addresses, m) := m.cycle budget
  let (beep, m) := m.advanceTimers
  ({ executed := addresses.filterMap Listing.indexOf, beep }, m)

theorem step_eq_none_iff (m : Machine) : m.step = none ↔ m.isAwaiting = true := by
  simp [step]

end Machine
end ChipEight
