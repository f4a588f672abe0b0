import ChipEight.Proofs.Bare.Execute
import ChipEight.Proofs.Event

/-!
Running a machine of plain data: a boot allocates the frame, a load copies the program, a
step executes a fetched word, a tick runs a budget of steps and counts the timers down, and a
press writes the awaited register. All of it is sound on the plain data of a machine whose
frame can be allocated.
-/
namespace ChipEight

namespace Bare

/-- The countdown subtracts only from what is not zero. -/
def countDown (t : UInt8) : Guarded UInt8 :=
  if 0 < t then do
    let rest ← subtract t.toNat 1
    return UInt8.ofNat rest
  else return t

namespace Machine

def boot (config : Config) (random : RandomBytes) : Guarded Machine := do
  let memory ← Memory.initial
  let frame ← Frame.blank config.width config.height
  return {
    config, random, memory, frame
    registers := ⟨Array.replicate 16 0, 0, Layout.programStart, []⟩
    timers := ⟨0, 0⟩
    keypad := ⟨Array.replicate 16 false, .running⟩ }

def reset (m : Machine) : Guarded Machine := boot m.config m.random

/-- The fresh machine is built before the program is looked at. -/
def load (m : Machine) (program : List UInt8) : Guarded (Except Rejection Machine) := do
  let fresh ← m.reset
  let loaded ← Memory.load fresh.memory program
  return loaded.map fun memory => { fresh with memory }

def step (m : Machine) : Guarded (Option (UInt16 × Machine)) :=
  match m.keypad.execution with
  | .awaitingKey _ => return none
  | .running => do
    let pc := m.registers.pc
    let word ← Memory.readWord m.memory pc
    let next ← execute { m with registers := { m.registers with pc := pc + 2 } } word
    return some (pc, next)

def cycle : Nat → Machine → Guarded (List UInt16 × Machine)
  | 0, m => return ([], m)
  | n + 1, m => do
    let stepped ← m.step
    match stepped with
    | none => return ([], m)
    | some (address, next) => do
      let (rest, last) ← cycle n next
      return (address :: rest, last)

def advanceTimers (m : Machine) : Guarded (Bool × Machine) := do
  let delay ← countDown m.timers.delay
  let sound ← countDown m.timers.sound
  return (decide (0 < m.timers.sound) && sound == 0, { m with timers := ⟨delay, sound⟩ })

/-- Room for the whole budget of executed places is allocated first. -/
def tick (budget : Nat) (m : Machine) : Guarded (Tick × Machine) := do
  allocate (wordBits / 8 * budget)
  let (addresses, m) ← m.cycle budget
  let (beep, m) ← m.advanceTimers
  return ({ executed := addresses.filterMap Listing.indexOf, beep }, m)

def takeFrame (m : Machine) : Machine :=
  if m.frame.dirty then { m with frame := m.frame.shown } else m

/-- A press while a key is awaited writes the register of that number. -/
def setKey (m : Machine) (key : UInt8) (pressed : Bool) : Guarded (Except Rejection Machine) :=
  if key.toNat < m.keypad.pressed.size then do
    let slots ← put m.keypad.pressed key.toNat pressed
    match m.keypad.execution, pressed with
    | .awaitingKey register, true => do
      let registers ← m.registers.set register key
      return .ok { m with registers, keypad := ⟨slots, .running⟩ }
    | execution, _ => return .ok { m with keypad := ⟨slots, execution⟩ }
  else return .error (.keyOutOfRange key)

end Machine
end Bare

namespace Machine

open Bare

structure Sound (m : Machine) : Prop where
  fitted : m.Fitted
  allocatable : max m.config.width 1 * max m.config.height 1 ≤ maxAllocation

namespace Sound

theorem size_pixels_le {m : Machine} (h : m.Sound) : m.frame.pixels.size ≤ maxAllocation := by
  rw [h.fitted.size_pixels]
  exact h.allocatable

theorem advance {m : Machine} (h : m.Sound) : m.advance.Sound :=
  ⟨h.fitted.advance, by rw [config_advance]; exact h.allocatable⟩

end Sound

theorem boot_bare {config : Config}
    (h : max config.width 1 * max config.height 1 ≤ maxAllocation) (random : RandomBytes) :
    Bare.Machine.boot config random = .ok (boot config random).bare := by
  rw [Bare.Machine.boot, Memory.initial_bare, ok_bind, Frame.blank_bare h]
  rfl

theorem reset_bare {m : Machine} (h : m.Sound) : m.bare.reset = .ok m.reset.bare :=
  boot_bare h.allocatable m.random

theorem load_bare {m : Machine} (h : m.Sound) (program : List UInt8) :
    m.bare.load program = .ok ((m.load program).map bare) := by
  rw [Bare.Machine.load, reset_bare h, ok_bind, memory_bare]
  change (do let loaded ← Bare.Memory.load Memory.initial.bytes.toArray program; _) = _
  rw [Memory.load_bare, ok_bind, load]
  cases Memory.initial.load program <;> rfl

theorem step_bare {m : Machine} (h : m.Sound) :
    m.bare.step = .ok (m.step.map fun (address, next) => (address, next.bare)) := by
  cases hwait : m.keypad.execution with
  | awaitingKey x =>
    have hawaiting : m.isAwaiting = true := (isAwaiting_iff m).mpr ⟨x, hwait⟩
    rw [Bare.Machine.step, execution_bare, hwait, (step_eq_none_iff m).mpr hawaiting]
    rfl
  | running =>
    have hrunning : m.isAwaiting = false := m.isAwaiting_eq_false_iff.mpr hwait
    have hexecute := execute_bare (m := m.mapRegisters .advance) h.size_pixels_le m.nextWord
    rw [Bare.Machine.step, execution_bare, hwait, step_of_running hrunning]
    dsimp only [Keypad.bareExecution]
    rw [memory_bare, registers_bare, Registers.pc_bare, Memory.readWord_bare, ok_bind]
    change (do let next ← (m.mapRegisters Registers.advance).bare.execute m.nextWord; _) = _
    rw [hexecute]
    rfl

theorem cycle_bare {m : Machine} (h : m.Sound) (n : Nat) :
    m.bare.cycle n = .ok ((m.cycle n).1, (m.cycle n).2.bare) := by
  induction n generalizing m with
  | zero => rfl
  | succ n ih =>
    rw [Bare.Machine.cycle, step_bare h, ok_bind]
    cases hrun : m.isAwaiting with
    | true =>
      rw [(step_eq_none_iff m).mpr hrun, cycle_of_awaiting hrun]
      rfl
    | false =>
      rw [step_of_running hrun, cycle_succ_of_running hrun]
      dsimp only [Option.map_some]
      rw [ih h.advance]
      rfl

theorem countDown_eq (t : UInt8) : countDown t = .ok (Timers.countDown t) := by
  by_cases hzero : t = 0
  · subst hzero
    rfl
  · have hpos : 0 < t := UInt8.pos_iff_ne_zero.mpr hzero
    have hone : 1 ≤ t.toNat := UInt8.lt_iff_toNat_lt.mp hpos
    have hrest := Timers.toNat_countDown t
    rw [countDown, if_pos hpos, subtract_eq_ok hone, ok_bind, ← hrest, UInt8.ofNat_toNat]
    rfl

/-- The countdown of the sound reaches zero exactly from one. -/
theorem countDown_beep (t : UInt8) :
    (decide (0 < t) && Timers.countDown t == 0) = (t == 1) := by
  have hrest := Timers.toNat_countDown t
  rw [Bool.eq_iff_iff]
  simp only [Bool.and_eq_true, decide_eq_true_eq, beq_iff_eq, UInt8.lt_iff_toNat_lt,
    ← UInt8.toNat_inj, hrest, UInt8.toNat_zero, UInt8.toNat_one]
  omega

theorem advanceTimers_bare (m : Machine) :
    m.bare.advanceTimers = .ok (m.advanceTimers.1, m.advanceTimers.2.bare) := by
  rw [Bare.Machine.advanceTimers, countDown_eq, ok_bind, countDown_eq, ok_bind]
  change Except.ok (_, _) = _
  rw [countDown_beep]
  rfl

/-- There is room for one word for each instruction of a tick. -/
theorem room_le {n : Nat} (h : n ≤ Layout.maxCycles) : wordBits / 8 * n ≤ maxAllocation := by
  have hn : n ≤ 30 := h
  simp only [wordBits, maxAllocation]
  omega

theorem tick_bare {m : Machine} (h : m.Sound) {budget : Nat}
    (hbudget : budget ≤ Layout.maxCycles) :
    m.bare.tick budget = .ok ((m.tick budget).1, (m.tick budget).2.bare) := by
  rw [Bare.Machine.tick, allocate_eq_ok (room_le hbudget), ok_bind, cycle_bare h, ok_bind]
  dsimp only
  rw [advanceTimers_bare]
  rfl

theorem takeFrame_bare (m : Machine) : m.bare.takeFrame = m.takeFrame.2.bare := by
  rw [Bare.Machine.takeFrame, takeFrame, frame_bare]
  change (if m.frame.dirty then _ else _) = _
  split <;> rfl

theorem setKey_bare (m : Machine) (key : UInt8) (pressed : Bool) :
    m.bare.setKey key pressed = .ok ((m.setKey key pressed).map bare) := by
  have hsize : m.bare.keypad.pressed.size = 16 := m.keypad.pressed.size_toArray
  by_cases hkey : key.toNat < 16
  · have hslots : put m.bare.keypad.pressed key.toNat pressed =
        .ok (m.keypad.pressed.set key.toNat pressed hkey).toArray :=
      put_toArray m.keypad.pressed hkey pressed
    rw [Bare.Machine.setKey, if_pos (by rwa [hsize]), hslots, ok_bind, execution_bare]
    cases hwait : m.keypad.execution with
    | running =>
      rw [setKey_of_running hwait hkey]
      cases pressed <;> rfl
    | awaitingKey x =>
      cases pressed with
      | false =>
        rw [m.setKey_release hkey]
        simp only [Keypad.bareExecution, Except.map, bare, Keypad.bare, hwait, pure_eq_ok]
      | true =>
        rw [setKey_press_of_awaiting hwait hkey]
        dsimp only [Keypad.bareExecution]
        rw [registers_bare, Registers.set_bare]
        rfl
  · rw [Bare.Machine.setKey, if_neg (by rwa [hsize]), m.setKey_of_le (Nat.not_lt.mp hkey)]
    rfl

end Machine
end ChipEight
