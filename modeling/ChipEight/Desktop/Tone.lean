/-!
The sound of a beep as a stream of samples. While samples remain, each is a point of a periodic
wave and the phase moves on; after that there is silence and the phase rests. The wave is a
parameter: it says what a phase sounds like and how a phase moves on by a step.
-/
namespace ChipEight.Desktop

structure Wave (α : Type) where
  start : α
  silence : α
  value : α → α
  advance : α → α → α

structure Tone (α : Type) where
  phase : α
  step : α
  remaining : Nat

namespace Tone

variable {α : Type}

def next (wave : Wave α) (t : Tone α) : α × Tone α :=
  match t.remaining with
  | 0 => (wave.silence, t)
  | n + 1 => (wave.value t.phase, { t with phase := wave.advance t.phase t.step, remaining := n })

def fill (wave : Wave α) (t : Tone α) : Nat → List α × Tone α
  | 0 => ([], t)
  | n + 1 =>
    let (sample, t) := t.next wave
    let (rest, t) := t.fill wave n
    (sample :: rest, t)

def fillAll (wave : Wave α) (t : Tone α) : List Nat → List (List α) × Tone α
  | [] => ([], t)
  | size :: sizes =>
    let (buffer, t) := t.fill wave size
    let (rest, t) := t.fillAll wave sizes
    (buffer :: rest, t)

def restart (wave : Wave α) (t : Tone α) (samples : Nat) : Tone α :=
  { t with phase := wave.start, remaining := samples }

end Tone

namespace Wave

/-- What stands before the point of a number without a sign. From 2^24 on nothing
stands behind it. -/
def whole (x : Float32) : Float32 := if x < 16777216 then x.toUInt64.toFloat32 else x

/-- The part of a number behind the point, with the sign of the number. -/
def fraction (x : Float32) : Float32 :=
  let part := x.abs - whole x.abs
  if x.toBits < 0x80000000 then part else -part

/-- Falls over the first half of a period and rises over the second, between a quarter and
minus a quarter. -/
def triangle : Wave Float32 where
  start := 0
  silence := 0
  value := fun phase => 0.25 * (4 * (phase - 0.5).abs - 1)
  advance := fun phase step => fraction (phase + step)

end Wave
end ChipEight.Desktop
