import ChipEight.Rejection
import ChipEight.Listing

/-!
The journal: what the machine, its console and the desktop have to tell, how important it is, and
the line of text that tells it.
-/
namespace ChipEight

inductive Level
  | warn
  | info
  | debug
  | trace
deriving DecidableEq, Repr

namespace Level

/-- Less important levels have higher ranks. -/
def rank : Level → Nat
  | warn => 0
  | info => 1
  | debug => 2
  | trace => 3

def name : Level → String
  | warn => "WARN"
  | info => "INFO"
  | debug => "DEBUG"
  | trace => "TRACE"

end Level

inductive Note
  | addressWraps (address : UInt16)
  | returnIgnored (address : UInt16)
  | frameRaised (width height : Nat)
  | fetched (word : UInt16) (v : Vector UInt8 16) (i pc : UInt16)
  | awaiting (register : Fin 16)
  | resumed (key : UInt8) (register : Fin 16)
  | soundEnded
  | resetting
  | replaced (size : Nat)
  | programReady (started : Bool)
  | playing
  | pausing
  | stopping
  | cyclesSet (cycles : Nat)
  | renderFailed (cause : String)
  | clearFailed (cause : String)
  | beepFailed (cause : String)
  | listed (words : Nat)
  | ran (words : List ListedWord)
  | registerShown (register : Fin 16) (value : UInt8)
  | indexShown (value : UInt16)
  | beeping
  | soundUnavailable (cause : String)
  | romLoaded (path : String)
  | refused (rejection : Rejection)
  | cyclesNow (cycles : Nat)

namespace Note

open Text

def level : Note → Level
  | addressWraps .. | returnIgnored .. | frameRaised .. => .warn
  | renderFailed .. | clearFailed .. | beepFailed .. => .warn
  | soundUnavailable .. | refused .. => .warn
  | listed .. | romLoaded .. | cyclesNow .. => .info
  | fetched .. => .trace
  | _ => .debug

def listedText (w : ListedWord) : String := Hex.lower 3 w.address.toNat ++ ":" ++ w.text

def vectorText (v : Vector UInt8 16) : String :=
  "[" ++ ", ".intercalate (v.toList.map fun byte => Hex.upper 2 byte.toNat) ++ "]"

def text : Note → String
  | addressWraps address =>
    "address 0x" ++ Hex.upper 4 address.toNat ++ " is out of range and wraps around"
  | returnIgnored address =>
    "return at 0x" ++ Hex.upper 4 address.toNat ++ " with an empty stack is ignored"
  | frameRaised width height =>
    s!"{width}x{height} frame buffer has no pixels, using at least 1x1"
  | fetched word v i pc =>
    Hex.upper 4 word.toNat ++ " v" ++ vectorText v ++ " i" ++ Hex.upper 4 i.toNat ++ " pc" ++
      Hex.upper 4 pc.toNat
  | awaiting register => "awaiting key press for V" ++ Hex.upper 1 register.val
  | resumed key register =>
    "key " ++ Hex.upper 1 key.toNat ++ " resumes execution into V" ++ Hex.upper 1 register.val
  | soundEnded => "sound timer ran out"
  | resetting => "resetting"
  | replaced size => s!"reset and loaded {size} byte program"
  | programReady started => "loaded program; " ++ if started then "Running" else "Stopped"
  | playing => "playing"
  | pausing => "pausing"
  | stopping => "stopping"
  | cyclesSet cycles => s!"running {cycles} cycles per tick"
  | renderFailed cause => s!"unable to render frame: {cause}"
  | clearFailed cause => s!"unable to clear display: {cause}"
  | beepFailed cause => s!"unable to beep: {cause}"
  | listed words => s!"loaded program with {words} opcodes"
  | ran words => "ran " ++ " ".intercalate (words.map listedText)
  | registerShown register value =>
    "V" ++ Hex.upper 1 register.val ++ " = 0x" ++ Hex.lower 2 value.toNat
  | indexShown value => "I = 0x" ++ Hex.lower 3 value.toNat
  | beeping => "beep"
  | soundUnavailable cause =>
    s!"unable to open audio device, continuing without sound: {cause}"
  | romLoaded path => s!"loaded {path}"
  | refused rejection => rejection.message
  | cyclesNow cycles => s!"{cycles} cycles per tick"

def reaches (note : Note) (least : Level) : Bool := decide (note.level.rank ≤ least.rank)

def line (note : Note) : String := note.level.name ++ " " ++ note.text

end Note
end ChipEight
