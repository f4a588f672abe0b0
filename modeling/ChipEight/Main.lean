import ChipEight.Desktop.Arguments
import ChipEight.Desktop.Session

/-!
The program itself, on a host that writes to the terminal. Each line of standard input is one
turn: words such as `+X` and `-X` press and release a key, `quit` ends the session, and so does
the end of the input. Frames appear as rows of text, notes go to standard error.
-/
namespace ChipEight.Terminal

open Desktop

def host : Host where
  refusal := fun _ => none
  surface := fun width height => ⟨3 * width, Array.replicate (3 * width * height) 0⟩
  requests := []

def usage : String :=
  "usage: [-c CYCLES] [-s SCALE] [--tick-rate RATE] [--paused] [--mute] [-v]... ROM"

def explain : Arguments.Refusal → String
  | .missingRom => "no file to load"
  | .unknownArgument => "unknown argument"
  | .missingValue => "an option lacks its value"
  | .badNumber => "not a number in range"
  | .repeated => "an option is given twice"
  | .surplusValue => "an option takes no value"
  | .help => usage
  | .version => "0.1.0"

def exitCode : Arguments.Refusal → UInt32
  | .help | .version => 0
  | _ => 2

def event (word : String) : Event :=
  match word.toList with
  | '+' :: name => .keyDown (some (Key.ofName (String.ofList name))) false
  | '-' :: name => .keyUp (some (Key.ofName (String.ofList name)))
  | _ => if word = "quit" then .quit else .other

def events (line : String) : List Event :=
  ((line.trimAscii.toString.splitOn " ").filter (· ≠ "")).map event

def shade : Option Bool → Char
  | some true => '#'
  | some false => '.'
  | none => '?'

def lines : Request → List String
  | .window title width height => [s!"{title} {width}x{height}"]
  | .pixels width height surface =>
    (surface.shades width height).map fun row => String.ofList (row.map shade)
  | .unlock => ["beep"]
  | _ => []

def romFile (path : String) : IO RomFile := do
  try
    let content ← IO.FS.readBinFile path
    return .file content.toList
  catch e =>
    match e with
    | .noFileOrDirectory .. => return .missing
    | .inappropriateType _ 21 _ => return .directory
    | .inappropriateType .. => return .notDirectory
    | e => return .unavailable (toString e)

def flush (least : Level) (d : Desk) : IO Desk := do
  let (segment, d) := Session.cut d []
  for request in segment.requests do
    for line in lines request do
      IO.println line
  for note in segment.notes do
    if note.reaches least then IO.eprintln note.line
  return d

partial def loop (least : Level) (pause : UInt32) (c : Console) (d : Desk) : IO UInt32 := do
  let line ← (← IO.getStdin).getLine
  let t := Session.turn c d (if line.isEmpty then [.quit] else events line)
  let d ← flush least t.world
  match t.ending with
  | .quit => return 0
  | .failed rejection =>
    IO.eprintln rejection.message
    return 1
  | .next =>
    IO.sleep pause
    loop least pause t.console d

def start (a : Arguments) : IO UInt32 := do
  let seed := (← IO.getRandomBytes 8).foldl (fun n b => n * 256 + b.toNat) 0
  let options : Options := {
    rom := a.rom, cycles := a.cycles, scale := a.scale, autoplay := !a.paused, mute := a.mute }
  let file ← romFile a.rom
  let setUp := Session.setUp options (.ofSeed (UInt64.ofNat seed)) file
  match setUp.run (.ofHost host) with
  | (.error failure, d) =>
    let _ ← flush a.level d
    IO.eprintln failure.message
    return 1
  | (.ok console, d) =>
    let d ← flush a.level d
    loop a.level (UInt32.ofNat (1000 / max 1 a.tickRate)) console d

end ChipEight.Terminal

def main (words : List String) : IO UInt32 :=
  match ChipEight.Desktop.Arguments.parse words with
  | .ok a => ChipEight.Terminal.start a
  | .error refusal => do
    IO.eprintln (ChipEight.Terminal.explain refusal)
    return ChipEight.Terminal.exitCode refusal
