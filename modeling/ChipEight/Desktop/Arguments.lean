import ChipEight.Layout
import ChipEight.Note

/-!
The command line. Options take a value that is attached to them or follows them; switches take
none and may be grouped behind one dash. A value that follows its option is only examined when the
next option, switch or file name has been recognised, or at the end.
-/
namespace ChipEight.Desktop

structure Arguments where
  rom : String
  cycles : Nat
  scale : Nat
  tickRate : Nat
  paused : Bool
  mute : Bool
  verbose : Nat
deriving DecidableEq, Repr

namespace Arguments

inductive Refusal
  | missingRom
  | unknownArgument
  | missingValue
  | badNumber
  | repeated
  | surplusValue
  | help
  | version
deriving DecidableEq, Repr

inductive Setting
  | cycles
  | scale
  | tickRate
deriving DecidableEq, Repr

inductive Switch
  | paused
  | mute
  | verbose
  | help
  | version
deriving DecidableEq, Repr

inductive Flag
  | setting (setting : Setting)
  | switch (switch : Switch)
deriving DecidableEq, Repr

/-- A word whose examination is put off. -/
inductive Pending
  | setting (setting : Setting) (value : Option String)
  | rom (path : String)
deriving DecidableEq, Repr

structure Reading where
  rom : Option String
  cycles : Option Nat
  scale : Option Nat
  tickRate : Option Nat
  paused : Bool
  mute : Bool
  verbose : Nat
  pending : Option Pending
  /-- A file name has been met, examined or not. -/
  romSeen : Bool
  /-- Everything that follows is a file name. -/
  onlyNames : Bool
deriving DecidableEq, Repr

def decimal? (digits : List Char) : Option Nat :=
  if digits = [] ∨ digits.any (fun c => !c.isDigit) then none
  else some (digits.foldl (fun n c => 10 * n + (c.toNat - '0'.toNat)) 0)

/-- A leading plus is allowed, and before zero a minus too where `signed` says so. -/
def number? (signed : Bool) (limit : Nat) (text : String) : Option Nat :=
  let value :=
    match text.toList with
    | '+' :: digits => decimal? digits
    | '-' :: digits => if signed then (decimal? digits).filter (· == 0) else none
    | digits => decimal? digits
  value.filter (· < limit)

namespace Setting

def parse : Setting → String → Option Nat
  | cycles, text => number? false UInt64.size text
  | scale, text => number? false UInt64.size text
  | tickRate, text => number? true UInt32.size text

end Setting

namespace Flag

def ofLetter : Char → Option Flag
  | 'c' => some (setting .cycles)
  | 's' => some (setting .scale)
  | 'v' => some (switch .verbose)
  | 'h' => some (switch .help)
  | 'V' => some (switch .version)
  | _ => none

def ofName : String → Option Flag
  | "cycles" => some (setting .cycles)
  | "scale" => some (setting .scale)
  | "tick-rate" => some (setting .tickRate)
  | "paused" => some (switch .paused)
  | "mute" => some (switch .mute)
  | "verbose" => some (switch .verbose)
  | "help" => some (switch .help)
  | "version" => some (switch .version)
  | _ => none

end Flag

namespace Reading

def initial : Reading where
  rom := none
  cycles := none
  scale := none
  tickRate := none
  paused := false
  mute := false
  verbose := 0
  pending := none
  romSeen := false
  onlyNames := false

def value (r : Reading) : Setting → Option Nat
  | .cycles => r.cycles
  | .scale => r.scale
  | .tickRate => r.tickRate

def setValue (r : Reading) (n : Nat) : Setting → Reading
  | .cycles => { r with cycles := some n }
  | .scale => { r with scale := some n }
  | .tickRate => { r with tickRate := some n }

/-- A setting may be given once; that is checked before its value is looked at. -/
def give (r : Reading) (setting : Setting) (text : String) : Except Refusal Reading :=
  if (r.value setting).isSome then .error .repeated
  else
    match setting.parse text with
    | some n => .ok (r.setValue n setting)
    | none => .error .badNumber

def settle (r : Reading) : Except Refusal Reading :=
  let rest := { r with pending := none }
  match r.pending with
  | none => .ok r
  | some (.rom path) =>
    if path = "" then .error .missingValue else .ok { rest with rom := some path }
  | some (.setting _ none) => .error .missingValue
  | some (.setting setting (some text)) => rest.give setting text

/-- A switch other than `verbose` may be given once. -/
def turnOn (r : Reading) : Switch → Except Refusal Reading
  | .paused => if r.paused then .error .repeated else .ok { r with paused := true }
  | .mute => if r.mute then .error .repeated else .ok { r with mute := true }
  | .verbose => .ok { r with verbose := min 255 (r.verbose + 1) }
  | .help => .error .help
  | .version => .error .version

def meetSwitch (r : Reading) (switch : Switch) : Except Refusal Reading :=
  match r.settle with
  | .ok r => r.turnOn switch
  | .error refusal => .error refusal

/-- A setting with an attached value is examined at once, without one it waits for
the next word. -/
def meetSetting (r : Reading) (setting : Setting) (attached : Option String) :
    Except Refusal Reading :=
  match r.settle, attached with
  | .ok r, some text => r.give setting text
  | .ok r, none => .ok { r with pending := some (.setting setting none) }
  | .error refusal, _ => .error refusal

def meetName (r : Reading) (path : String) : Except Refusal Reading :=
  if r.romSeen then .error .unknownArgument
  else
    match r.settle with
    | .ok r => .ok { r with pending := some (.rom path), romSeen := true }
    | .error refusal => .error refusal

/-- The letters behind one dash; what follows the letter of a setting is its value. -/
def meetLetters (r : Reading) : List Char → Except Refusal Reading
  | [] => .ok r
  | letter :: rest =>
    match Flag.ofLetter letter with
    | none => .error .unknownArgument
    | some (.switch switch) =>
      match r.meetSwitch switch with
      | .ok r => r.meetLetters rest
      | .error refusal => .error refusal
    | some (.setting setting) =>
      match rest with
      | [] => r.meetSetting setting none
      | '=' :: value => r.meetSetting setting (some (String.ofList value))
      | value => r.meetSetting setting (some (String.ofList value))

/-- What follows two dashes: a name and perhaps a value behind an equals sign. -/
def meetLong (r : Reading) (body : List Char) : Except Refusal Reading :=
  let name := body.takeWhile (· != '=')
  let attached :=
    match body.dropWhile (· != '=') with
    | [] => none
    | _ :: value => some (String.ofList value)
  match Flag.ofName (String.ofList name), attached with
  | none, _ => .error .unknownArgument
  | some (.switch _), some _ => .error .surplusValue
  | some (.switch switch), none => r.meetSwitch switch
  | some (.setting setting), _ => r.meetSetting setting attached

/-- A word without a leading dash, or a dash alone: a value that was waited for, or
a file name. -/
def meetPlain (r : Reading) (word : String) : Except Refusal Reading :=
  match r.pending with
  | some (.setting setting none) =>
    .ok { r with pending := some (.setting setting (some word)) }
  | _ => r.meetName word

def meet (r : Reading) (word : String) : Except Refusal Reading :=
  if r.onlyNames then r.meetName word
  else
    match word.toList with
    | ['-', '-'] => .ok { r with onlyNames := true }
    | '-' :: '-' :: body => r.meetLong body
    | ['-'] => r.meetPlain word
    | '-' :: letters => r.meetLetters letters
    | _ => r.meetPlain word

def meetAll (r : Reading) : List String → Except Refusal Reading
  | [] => r.settle
  | word :: rest =>
    match r.meet word with
    | .ok r => r.meetAll rest
    | .error refusal => .error refusal

end Reading

def parse (words : List String) : Except Refusal Arguments :=
  match Reading.initial.meetAll words with
  | .error refusal => .error refusal
  | .ok r =>
    match r.rom with
    | none => .error .missingRom
    | some rom => .ok {
        rom
        cycles := r.cycles.getD Layout.defaultCycles
        scale := r.scale.getD 10
        tickRate := r.tickRate.getD 60
        paused := r.paused
        mute := r.mute
        verbose := r.verbose }

def level (a : Arguments) : Level :=
  match a.verbose with
  | 0 => .info
  | 1 => .debug
  | _ => .trace

end Arguments
end ChipEight.Desktop
