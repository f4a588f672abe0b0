import ChipEight.Desktop.Host
import ChipEight.Desktop.Tone

/-!
A sound device that plays short beeps of one pitch. The host says at which frequency the device
plays. It need not be the desired one, but it stays the same; the step of the tone and the number
of samples in a beep go by it.
-/
namespace ChipEight.Desktop.Beeper

open Host

def desiredFrequency : Nat := 44100

def pitch : Float32 := 440

def beepMillis : Int32 := 100

def frequency (host : Host) : Int32 := host.frequency desiredFrequency

/-- The product has thirty-two bits. A negative quotient becomes a large number of samples. -/
def beepSamples (host : Host) : Nat :=
  (frequency host * beepMillis / 1000).toInt64.toUInt64.toNat

def quiet (host : Host) : Tone Float32 where
  phase := Wave.triangle.start
  step := pitch / (frequency host).toFloat32
  remaining := 0

def setUp : HostM (Tone Float32) := do
  startSubsystem .audio
  demand .audio (.openAudio desiredFrequency 1)
  ask .resume
  return quiet (← get)

/-- The device is locked while its tone restarts. -/
def beep (tone : Tone Float32) : HostM (Tone Float32) := do
  ask .lock
  ask .unlock
  return tone.restart Wave.triangle (beepSamples (← get))

end ChipEight.Desktop.Beeper
