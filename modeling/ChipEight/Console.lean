import ChipEight.Machine.Notes
import ChipEight.Rom
import ChipEight.Signal

/-!
The console around a machine: it holds the loaded program, starts and stops the machine, and sends
signals to its peripherals. Each operation gives the console after it together with the signals it
sends, in order; a refused operation gives neither, so nothing has changed and nothing was sent.
-/
namespace ChipEight

inductive Status
  | stopped
  | running
  | paused
deriving DecidableEq, Repr

structure Console where
  machine : Machine
  cycles : Nat
  watch : Watch
  program : Option (List UInt8)
  listing : Listing
  status : Status

abbrev Outcome := Console × List Signal

namespace Console

def ofMachine (machine : Machine) : Except Rejection Console :=
  match checkCycles machine.config.cycles with
  | .error rejection => .error rejection
  | .ok cycles => .ok {
      machine, cycles, watch := .initial, program := none, listing := [], status := .stopped }

def isLoaded (c : Console) : Bool := c.program.isSome

def notes (list : List Note) : List Signal := list.map .note

def load (c : Console) (program : List UInt8) (autoplay : Bool) : Except Rejection Outcome :=
  match c.machine.load program with
  | .error rejection => .error rejection
  | .ok machine =>
    let listing := Listing.ofProgram program
    let console := { c with
      machine, listing
      watch := .initial
      program := some program
      status := if autoplay then .running else .stopped }
    .ok (console, [.note (.replaced program.length), .clear, .forget, .loaded listing,
      .note (.programReady autoplay)])

def loadRom (c : Console) (chunks : List Chunk) (autoplay : Bool) : Except Rejection Outcome :=
  match Rom.read chunks with
  | .error rejection => .error rejection
  | .ok program => c.load program autoplay

/-- Changes the status of a console that holds a program. -/
def setStatus (c : Console) (status : Status) (note : Note) : Outcome :=
  if c.isLoaded then ({ c with status }, [.note note]) else (c, [])

def play (c : Console) : Outcome :=
  if c.status = .running then (c, []) else c.setStatus .running .playing

def pause (c : Console) : Outcome := c.setStatus .paused .pausing

def stop (c : Console) : Outcome := c.setStatus .stopped .stopping

/-- Loads the same program again; it starts unless the console was paused. -/
def replay (c : Console) : Except Rejection Outcome :=
  match c.program with
  | none => .ok (c, [])
  | some program => c.load program (c.status != .paused)

def reset (c : Console) : Outcome :=
  let console := { c with
    machine := c.machine.reset, watch := .initial, program := none, listing := []
    status := .stopped }
  (console, [.note .resetting, .clear, .forget])

def setCycles (c : Console) (cycles : Nat) : Except Rejection Outcome :=
  match checkCycles cycles with
  | .error rejection => .error rejection
  | .ok cycles => .ok ({ c with cycles }, [.note (.cyclesSet cycles)])

def runTick (c : Console) (budget : Nat) : Outcome :=
  let (tick, machine) := c.machine.tick budget
  let (frame, machine) := machine.takeFrame
  let observation := c.watch.observe machine.registers tick.executed
  let console := { c with machine, watch := .ofRegisters machine.registers }
  (console, notes (c.machine.tickNotes budget) ++ (frame.map Signal.render).toList ++
    (if tick.beep then [.beep] else []) ++ [.observe observation])

def tick (c : Console) : Outcome :=
  if c.status = .running then c.runTick c.cycles else (c, [])

/-- Runs one instruction and pauses, unless there is nothing to run. -/
def stepOnce (c : Console) : Outcome :=
  if c.isLoaded && !c.machine.isAwaiting then { c with status := .paused }.runTick 1 else (c, [])

/-- Keys do not reach a stopped console. -/
def setKey (c : Console) (key : UInt8) (pressed : Bool) : Except Rejection Outcome :=
  if c.status = .stopped then .ok (c, [])
  else
    match c.machine.setKey key pressed with
    | .error rejection => .error rejection
    | .ok machine => .ok ({ c with machine }, notes (c.machine.keyNotes key pressed))

end Console
end ChipEight
