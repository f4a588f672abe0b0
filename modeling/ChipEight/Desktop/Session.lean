import ChipEight.Desktop.Beeper
import ChipEight.Desktop.Command
import ChipEight.Desktop.Display
import ChipEight.Desktop.Monitor

/-!
A session at the desktop: window, speaker and events are set up, the program file is loaded, and
then each turn handles the events that have come in and lets the console tick. A session ends when
it is told to quit; whatever happens before its first turn may also end it.
-/
namespace ChipEight.Desktop

structure Desk where
  host : Host
  speaker : Option (Tone Float32)
  monitor : Monitor
  journal : List Note

namespace Desk

def ofHost (host : Host) : Desk := ⟨host, none, .initial, []⟩

def write (d : Desk) (notes : List Note) : Desk := { d with journal := d.journal ++ notes }

def onHost {α : Type} (d : Desk) (work : HostM α) : Except String α × Desk :=
  let (result, host) := work.run d.host
  (result, { d with host })

def render (frame : Frame) (d : Desk) : Except String Unit × Desk :=
  d.onHost (Display.render frame)

def clear (d : Desk) : Except String Unit × Desk := d.onHost Display.clear

/-- Without a speaker a beep is silent and succeeds. -/
def beep (d : Desk) : Except String Unit × Desk :=
  match d.speaker with
  | none => (.ok (), d)
  | some tone =>
    match (d.write [.beeping]).onHost (Beeper.beep tone) with
    | (.ok tone, d) => (.ok (), { d with speaker := some tone })
    | (.error cause, d) => (.error cause, d)

def loaded (listing : Listing) (d : Desk) : Desk :=
  { d.write (Monitor.loadNotes listing) with monitor := ⟨listing⟩ }

def forget (d : Desk) : Desk := { d with monitor := .initial }

def observe (o : Observation) (d : Desk) : Desk := d.write (d.monitor.notes o)

instance : Peripherals Desk where
  render := render
  clear := clear
  beep := beep
  loaded := loaded
  forget := forget
  observe := observe
  note := fun note d => d.write [note]

def play (d : Desk) (samples : Nat) : List Float32 × Desk :=
  match d.speaker with
  | none => ([], d)
  | some tone =>
    let (played, tone) := tone.fill .triangle samples
    (played, { d with speaker := some tone })

end Desk

inductive Event
  | keyDown (key : Option Key) (repeated : Bool)
  | keyUp (key : Option Key)
  | quit
  | other
deriving DecidableEq, Repr

inductive RomFile
  | missing
  | notDirectory
  | directory
  | unavailable (cause : String)
  | file (content : List UInt8)
deriving DecidableEq, Repr

namespace RomFile

/-- Opening a file, with the text of the operating system where that fails. A directory can be
opened but not read. -/
def contents : RomFile → Except String (List Chunk)
  | missing => .error "No such file or directory (os error 2)"
  | notDirectory => .error "Not a directory (os error 20)"
  | directory => .ok [.failed "Is a directory (os error 21)"]
  | unavailable cause => .error cause
  | file content => .ok [.bytes content]

end RomFile

structure Options where
  rom : String
  cycles : Nat
  scale : Nat
  autoplay : Bool
  mute : Bool
deriving DecidableEq, Repr

inductive Failure
  | rejection (rejection : Rejection)
  | host (cause : String)
  | file (cause : String)
deriving DecidableEq, Repr

namespace Failure

def message : Failure → String
  | rejection r => r.message
  | host cause => cause
  | file cause => cause

end Failure

namespace Session

abbrev DeskM (α : Type) := ExceptT Failure (StateM Desk) α

def rejecting {α : Type} : Except Rejection α → DeskM α
  | .ok a => pure a
  | .error rejection => throw (.rejection rejection)

def hosting {α : Type} (work : HostM α) : DeskM α := do
  match ← modifyGet (·.onHost work) with
  | .ok a => pure a
  | .error cause => throw (.host cause)

def write (note : Note) : DeskM Unit := modify (·.write [note])

/-- A sound device that cannot be opened only leaves the desk silent. -/
def setUpSpeaker : DeskM Unit := do
  match ← modifyGet (·.onHost Beeper.setUp) with
  | .ok tone => modify ({ · with speaker := some tone })
  | .error cause => write (.soundUnavailable cause)

def setUp (options : Options) (random : RandomBytes) (file : RomFile) : DeskM Console := do
  let config ← rejecting (Config.standard.withCycles options.cycles)
  let console ← rejecting (Console.ofMachine (.boot config random))
  hosting (Host.allow .library)
  hosting (Display.setUp config.width config.height options.scale)
  if !options.mute then setUpSpeaker
  hosting (Host.startSubsystem .events)
  match file.contents with
  | .error cause => throw (.file cause)
  | .ok chunks =>
    let (console, signals) ← rejecting (console.loadRom chunks options.autoplay)
    modify (Peripherals.deliver · signals)
    write (.romLoaded options.rom)
    return console

/-- A key of the keypad comes before a command; a repeated press means nothing. -/
def handle (c : Console) : Event → Except Rejection Outcome
  | .keyDown (some key) false =>
    match key.code, key.command with
    | some code, _ => c.setKey code true
    | none, some command => command.apply c
    | none, none => .ok (c, [])
  | .keyUp (some key) =>
    match key.code with
    | some code => c.setKey code false
    | none => .ok (c, [])
  | _ => .ok (c, [])

inductive Ending
  | next
  | quit
  | failed (rejection : Rejection)
deriving DecidableEq, Repr

structure Turn (σ : Type) where
  ending : Ending
  console : Console
  world : σ

variable {σ : Type} [Peripherals σ]

/-- Handles the events in order and ticks at the end of them. After a quit nothing more is handled
and there is no tick. -/
def turn (c : Console) (world : σ) : List Event → Turn σ
  | [] =>
    let (console, signals) := c.tick
    ⟨.next, console, Peripherals.deliver world signals⟩
  | .quit :: _ => ⟨.quit, c, world⟩
  | event :: rest =>
    match handle c event with
    | .error rejection => ⟨.failed rejection, c, world⟩
    | .ok (console, signals) => turn console (Peripherals.deliver world signals) rest

structure Segment where
  requests : List Request
  notes : List Note
  samples : List Float32

def cut (d : Desk) (samples : List Float32) : Segment × Desk :=
  (⟨d.host.requests, d.journal, samples⟩,
    { d with host := { d.host with requests := [] }, journal := [] })

/-- The turns of a session, each followed by the playing of some samples; after the given turns
the session is told to quit. -/
def turns (samples : Nat) (c : Console) (d : Desk) :
    List (List Event) → List Segment × Option Failure
  | [] => ([(cut (turn c d [.quit]).world []).1], none)
  | events :: rest =>
    let t := turn c d events
    match t.ending with
    | .next =>
      let (played, d) := t.world.play samples
      let (segment, d) := cut d played
      let (segments, failure) := turns samples t.console d rest
      (segment :: segments, failure)
    | .quit => ([(cut t.world []).1], none)
    | .failed rejection => ([(cut t.world []).1], some (.rejection rejection))

def run (options : Options) (random : RandomBytes) (file : RomFile) (host : Host) (samples : Nat)
    (events : List (List Event)) : List Segment × Option Failure :=
  match (setUp options random file).run (.ofHost host) with
  | (.error failure, d) => ([(cut d []).1], some failure)
  | (.ok console, d) =>
    let (segment, d) := cut d []
    let (segments, failure) := turns samples console d events
    (segment :: segments, failure)

end Session
end ChipEight.Desktop
