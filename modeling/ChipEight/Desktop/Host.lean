import ChipEight.Desktop.Texture

/-!
The window system and sound system below the desktop. A host keeps the requests made of it, in
order, and may refuse some kinds of them with a text of its own.
-/
namespace ChipEight.Desktop

inductive Subsystem
  | video
  | audio
  | events
deriving DecidableEq, Repr

inductive Request
  | start (subsystem : Subsystem)
  | window (title : String) (width height : UInt32)
  | renderer
  | color (red green blue alpha : UInt8)
  | clear
  | present
  | texture (width height : UInt32)
  | pixels (width height : Nat) (surface : Surface)
  | copy
  | openAudio (frequency channels : Nat)
  | resume
  | lock
  | unlock

inductive Duty
  | library
  | subsystem (subsystem : Subsystem)
  | window
  | renderer
  | texture
  | textureLock
  | copy
  | audio
deriving DecidableEq, Repr

structure Host where
  refusal : Duty → Option String
  /-- The surface handed out for a texture of some width and height. -/
  surface : Nat → Nat → Surface
  requests : List Request
  /-- The frequency of the sound device that is opened where some frequency is desired. -/
  frequency : Nat → Int32 := Int32.ofNat

abbrev HostM (α : Type) := ExceptT String (StateM Host) α

/-- The state goes from one piece of work to the next, whatever the first one gives. -/
theorem stateM_bind_apply {σ α β : Type} (first : StateM σ α) (second : α → StateM σ β) (s : σ) :
    (first >>= second) s = second (first s).1 (first s).2 := rfl

namespace Host

def ask (request : Request) : HostM Unit :=
  modify fun h => { h with requests := h.requests ++ [request] }

def allow (duty : Duty) : HostM Unit := do
  match (← get).refusal duty with
  | some cause => throw cause
  | none => pure ()

/-- A request that is recorded first and then perhaps refused. -/
def demand (duty : Duty) (request : Request) : HostM Unit := do
  ask request
  allow duty

def startSubsystem (subsystem : Subsystem) : HostM Unit :=
  demand (.subsystem subsystem) (.start subsystem)

/-- The text of a refusal as it is told when something could not be created. -/
def creating (work : HostM Unit) : HostM Unit :=
  tryCatch work fun cause => throw s!"SDL error: {cause}"

end Host
end ChipEight.Desktop
