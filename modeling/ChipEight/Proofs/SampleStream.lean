import ChipEight.Desktop.Beeper
import ChipEight.Proofs.Bare.Tone
import ChipEight.Proofs.Upload
import Mathlib.Algebra.GroupWithZero.Nat
import Mathlib.Logic.Function.Iterate

/-!
A tone as one stream of samples. Each sample has its number: as long as the count lasts it is the
point of the wave at the phase that has moved on as many times, and behind that there is silence.
Playing some samples only takes them off the front of the stream. So it makes no difference into
which buffers the stream is cut, nor what they held before, and a new beep begins the stream anew
wherever the one before it was.
-/
namespace ChipEight.Desktop

namespace Tone

section Stream

variable {α : Type} (wave : Wave α) (t : Tone α)

def phaseAt (steps : Nat) : α := (fun phase => wave.advance phase t.step)^[steps] t.phase

def sampleAt (number : Nat) : α :=
  if number < t.remaining then wave.value (t.phaseAt wave number) else wave.silence

def stream (count : Nat) : List α := (List.range count).map (t.sampleAt wave)

/-- The tone after some samples. In silence the phase rests. -/
def after (count : Nat) : Tone α where
  phase := t.phaseAt wave (min t.remaining count)
  step := t.step
  remaining := t.remaining - min t.remaining count

theorem remaining_after (count : Nat) :
    (t.after wave count).remaining = t.remaining - min t.remaining count := rfl

theorem phaseAt_after (count steps : Nat) :
    (t.after wave count).phaseAt wave steps = t.phaseAt wave (steps + min t.remaining count) :=
  (Function.iterate_add_apply ..).symm

theorem sampleAt_after (count number : Nat) :
    (t.after wave count).sampleAt wave number = t.sampleAt wave (count + number) := by
  rw [sampleAt, sampleAt, phaseAt_after, remaining_after]
  by_cases hsounds : count + number < t.remaining
  · have hphase : number + min t.remaining count = count + number := by omega
    rw [if_pos (by omega), if_pos hsounds, hphase]
  · rw [if_neg (by omega), if_neg hsounds]

theorem after_after (first second : Nat) :
    (t.after wave first).after wave second = t.after wave (first + second) := by
  have hcount : min (t.remaining - min t.remaining first) second + min t.remaining first =
      min t.remaining (first + second) := by omega
  have hrest : t.remaining - min t.remaining first -
        min (t.remaining - min t.remaining first) second =
      t.remaining - min t.remaining (first + second) := by omega
  rw [after, phaseAt_after, remaining_after, hcount, hrest]
  rfl

theorem after_zero : t.after wave 0 = t := by
  rw [after, Nat.min_zero]
  rfl

theorem next_eq : t.next wave = (t.sampleAt wave 0, t.after wave 1) := by
  obtain ⟨phase, step, remaining⟩ := t
  cases remaining with
  | zero => rfl
  | succ n =>
    have hone : min (n + 1) 1 = 1 := by omega
    rw [after, hone]
    rfl

/-- Behind a stretch comes what the tone after it plays. -/
theorem stream_append (first second : Nat) :
    t.stream wave first ++ (t.after wave first).stream wave second =
      t.stream wave (first + second) := by
  have hsecond : (t.after wave first).stream wave second =
      (List.range second).map fun number => t.sampleAt wave (first + number) :=
    List.map_congr_left fun number _ => t.sampleAt_after wave first number
  rw [hsecond, stream, stream, List.range_add, List.map_append, List.map_map]
  rfl

/-- A buffer takes a stretch off the front of the stream. -/
theorem fill_eq (count : Nat) :
    t.fill wave count = (t.stream wave count, t.after wave count) := by
  induction count generalizing t with
  | zero => exact Prod.ext rfl (t.after_zero wave).symm
  | succ count ih =>
    have hstream := t.stream_append wave 1 count
    have hafter := t.after_after wave 1 count
    rw [Nat.add_comm] at hstream hafter
    rw [fill, next_eq]
    dsimp only
    rw [ih, ← hstream, ← hafter]
    rfl

/-- Buffers one after the other take one long stretch. -/
theorem fillAll_eq (sizes : List Nat) :
    (t.fillAll wave sizes).1.flatten = t.stream wave sizes.sum ∧
      (t.fillAll wave sizes).2 = t.after wave sizes.sum ∧
      (t.fillAll wave sizes).1.map List.length = sizes := by
  induction sizes generalizing t with
  | nil => exact ⟨rfl, (t.after_zero wave).symm, rfl⟩
  | cons size sizes ih =>
    obtain ⟨hstream, hafter, hlengths⟩ := ih (t.after wave size)
    rw [fillAll, fill_eq, List.sum_cons]
    dsimp only
    refine ⟨?_, ?_, ?_⟩
    · rw [List.flatten_cons, hstream, stream_append]
    · rw [hafter, after_after]
    · rw [List.map_cons, hlengths, stream, List.length_map, List.length_range]

/-- Buffers that are overwritten in place hold the stream, and the tone has moved on behind it. -/
theorem callbacks_eq (buffers : List (Array α)) :
    ∃ filled, Bare.Tone.callbacks wave t buffers =
        .ok (filled, t.after wave (buffers.map Array.size).sum) ∧
      t.fillAll wave (buffers.map Array.size) =
        (filled.map Array.toList, t.after wave (buffers.map Array.size).sum) ∧
      filled.map Array.size = buffers.map Array.size ∧
      filled.flatMap Array.toList = t.stream wave (buffers.map Array.size).sum := by
  obtain ⟨hstream, hafter, hlengths⟩ := t.fillAll_eq wave (buffers.map Array.size)
  have hlists : ((t.fillAll wave (buffers.map Array.size)).1.map List.toArray).map Array.toList =
      (t.fillAll wave (buffers.map Array.size)).1 := by
    rw [List.map_map]
    exact List.map_id' _
  refine ⟨(t.fillAll wave (buffers.map Array.size)).1.map List.toArray, ?_, ?_, ?_, ?_⟩
  · rw [Bare.Tone.callbacks_eq_ok, hafter]
  · rw [hlists, ← hafter]
  · rw [List.map_map]
    exact hlengths
  · rw [List.flatMap_def, hlists, hstream]

theorem callback_eq (buffer : Array α) :
    Bare.Tone.callback wave t buffer =
      .ok ((t.stream wave buffer.size).toArray, t.after wave buffer.size) := by
  rw [Bare.Tone.callback_eq_ok, fill_eq]

end Stream

/-- Any tone on any wave fills buffers of any sizes, whatever they hold. That never breaks down,
and the buffers one after the other hold what one buffer of their total size would hold. A
sample is the point of the wave at the phase that has moved on as often as its number says, as
long as samples remain, and behind that it is silence. Afterwards the phase has moved on just as
often as there were samples of the wave. A beep that begins then has all its samples from the
start of the wave on, however many were left of the one before it; and this is what the speaker
does when it beeps. -/
theorem stream_ignores_buffer_boundaries {α : Type} (wave : Wave α) (t : Tone α)
    (buffers : List (Array α)) :
    let total := (buffers.map Array.size).sum
    ∃ filled left, Bare.Tone.callbacks wave t buffers = .ok (filled, left) ∧
      t.fillAll wave (buffers.map Array.size) = (filled.map Array.toList, left) ∧
      filled.map Array.size = buffers.map Array.size ∧
      (∀ whole : Array α, whole.size = total →
        Bare.Tone.callback wave t whole = .ok ((filled.flatMap Array.toList).toArray, left)) ∧
      (filled.flatMap Array.toList = (List.range total).map fun number =>
        if number < t.remaining then wave.value (t.phaseAt wave number) else wave.silence) ∧
      (left.phase = t.phaseAt wave (min t.remaining total) ∧ left.step = t.step ∧
        left.remaining = t.remaining - min t.remaining total) ∧
      (∀ (samples : Nat) (later : List (Array α)), ∃ played rest,
        Bare.Tone.callbacks wave (left.restart wave samples) later = .ok (played, rest) ∧
        played.flatMap Array.toList = (List.range (later.map Array.size).sum).map fun number =>
          if number < samples then
            wave.value ((fun phase => wave.advance phase t.step)^[number] wave.start)
          else wave.silence) ∧
      ∀ (tone : Tone Float32) (host : Host), (Beeper.beep tone).run host =
        (.ok (tone.restart .triangle (Beeper.beepSamples host)),
          (host.requested .lock).requested .unlock) := by
  intro total
  obtain ⟨filled, hfilled, hfill, hsizes, hstream⟩ := t.callbacks_eq wave buffers
  refine ⟨filled, t.after wave total, hfilled, hfill, hsizes, fun whole hwhole => ?_, hstream,
    ⟨rfl, rfl, rfl⟩, fun samples later => ?_, fun _ _ => rfl⟩
  · rw [callback_eq, hwhole, hstream]
  · obtain ⟨played, hplayed, -, -, hlater⟩ :=
      ((t.after wave total).restart wave samples).callbacks_eq wave later
    exact ⟨played, _, hplayed, hlater⟩

/-- The triangle wave in steps of an eighth. Two of five samples are left when a beep of four
samples interrupts them; its last one stands in the middle of a buffer. -/
theorem stream_ignores_buffer_boundaries_of_interrupted_beep :
    let t : Tone Float32 := ⟨0, 0.125, 5⟩
    let buffers : List (Array Float32) := [#[7, 7], #[], #[7]]
    let whole : Array Float32 := #[1, 2, 3]
    whole.size = (buffers.map Array.size).sum ∧
      ∃ filled left, Bare.Tone.callbacks .triangle t buffers = .ok (filled, left) ∧
        filled.flatMap Array.toList = [0.25, 0.125, 0] ∧
        Bare.Tone.callback .triangle t whole = .ok (#[0.25, 0.125, 0], left) ∧
        (left.phase = 0.375 ∧ left.remaining = 2) ∧
        ∃ played rest,
          Bare.Tone.callbacks .triangle (left.restart .triangle 4) [#[9], #[9, 9, 9, 9, 9]] =
            .ok (played, rest) ∧
          played.flatMap Array.toList = [0.25, 0.125, 0, -0.125, 0, 0] := by
  intro t buffers whole
  have hwhole : whole.size = (buffers.map Array.size).sum := rfl
  obtain ⟨filled, left, hfilled, -, -, hone, hsamples, ⟨hphase, -, hremaining⟩, hbeep, -⟩ :=
    stream_ignores_buffer_boundaries .triangle t buffers
  obtain ⟨played, rest, hplayed, hlater⟩ := hbeep 4 [#[9], #[9, 9, 9, 9, 9]]
  have hthree : filled.flatMap Array.toList = [0.25, 0.125, 0] :=
    hsamples.trans (by decide +kernel)
  have hreached : t.phaseAt .triangle 3 = 0.375 := by decide +kernel
  refine ⟨hwhole, filled, left, hfilled, hthree, ?_, ⟨hphase.trans hreached, hremaining⟩, played,
    rest, hplayed, hlater.trans (by decide +kernel)⟩
  rw [hone whole hwhole, hthree]

end Tone
end ChipEight.Desktop
