import ChipEight.Proofs.Event
import ChipEight.Proofs.FailingPeripherals

/-!
A console at rest. Stopped or paused, it stays so under ticks, key events, changes of speed,
pauses, stops and refused loads, and calls nobody. Of all these only a press is felt by a program:
it fills the register that a paused program waits to fill, and then the wait is over. A single
step runs one instruction and leaves the console paused, or does nothing at all.
-/
namespace ChipEight

def Registers.filled (r : Registers) : Option (Fin 16 × UInt8) → Registers
  | some (x, key) => r.set x key
  | none => r

namespace Console

/-- The action is none of those that set a console going: a play, a single step, a replay, a
reset, or a load that is carried out. -/
def Idle (c : Console) : Action → Prop
  | .tick | .setKey .. | .setCycles _ | .pause | .stop => True
  | .load program autoplay => ∃ rejection, c.perform (.load program autoplay) = .error rejection
  | .loadRom chunks autoplay =>
    ∃ rejection, c.perform (.loadRom chunks autoplay) = .error rejection
  | .play | .stepOnce | .replay | .reset => False

def Idles (c : Console) : List Action → Prop
  | [] => True
  | action :: rest => c.Idle action ∧ (c.next action).Idles rest

/-- The register that an action fills and the key it is filled with: the awaited one, at the press
of a key of the keypad, if the console is paused. -/
def fills (c : Console) : Action → Option (Fin 16 × UInt8)
  | .setKey key true =>
    match c.status, c.machine.keypad.execution with
    | .paused, .awaitingKey x => if key.toNat < 16 then some (x, key) else none
    | _, _ => none
  | _ => none

def firstFill (c : Console) : List Action → Option (Fin 16 × UInt8)
  | [] => none
  | action :: rest =>
    match c.fills action with
    | some fill => some fill
    | none => (c.next action).firstFill rest

/-- The console `d` does not run, and it is `c` but for its speed, its status, its pressed keys,
and a register that has been filled, which ends the wait. -/
structure Resting (c d : Console) (fill : Option (Fin 16 × UInt8)) : Prop where
  status : d.status ≠ .running
  machine : d.machine =
    { c.machine with registers := c.machine.registers.filled fill, keypad := d.machine.keypad }
  execution : d.machine.keypad.execution =
    if fill.isSome then .running else c.machine.keypad.execution
  watch : d.watch = c.watch
  program : d.program = c.program
  listing : d.listing = c.listing

namespace Resting

variable {c d e : Console} {fill : Option (Fin 16 × UInt8)}

theorem of_machine_eq (hmachine : d.machine = c.machine) (hwatch : d.watch = c.watch)
    (hprogram : d.program = c.program) (hlisting : d.listing = c.listing)
    (hstatus : d.status ≠ .running) : Resting c d none :=
  ⟨hstatus, by rw [hmachine]; rfl, by rw [hmachine]; rfl, hwatch, hprogram, hlisting⟩

theorem refl (h : c.status ≠ .running) : Resting c c none := of_machine_eq rfl rfl rfl rfl h

/-- Before and after the register is filled the console may rest for a while. -/
theorem prepend (h : Resting c d none) (h' : Resting d e fill) : Resting c e fill where
  status := h'.status
  machine := by
    rw [h'.machine, h.machine]
    rfl
  execution := by
    rw [h'.execution, h.execution]
    rfl
  watch := h'.watch.trans h.watch
  program := h'.program.trans h.program
  listing := h'.listing.trans h.listing

theorem append (h : Resting c d fill) (h' : Resting d e none) : Resting c e fill where
  status := h'.status
  machine := by
    rw [h'.machine, h.machine]
    rfl
  execution := h'.execution.trans h.execution
  watch := h'.watch.trans h.watch
  program := h'.program.trans h.program
  listing := h'.listing.trans h.listing

end Resting

theorem awaiting_of_fills {c : Console} {action : Action} {x : Fin 16} {key : UInt8}
    (h : c.fills action = some (x, key)) : c.machine.keypad.execution = .awaitingKey x := by
  unfold fills at h
  split at h
  · split at h
    · next hwait =>
      split at h
      · cases h
        exact hwait
      · cases h
    · cases h
  · cases h

section Paused

variable {c : Console} {key : UInt8} (hpaused : c.status = .paused)
include hpaused

/-- A key event reaches the machine of a paused console. -/
theorem next_setKey_of_paused {pressed : Bool} {m : Machine}
    (hm : c.machine.setKey key pressed = .ok m) :
    c.next (.setKey key pressed) = { c with machine := m } := by
  have hstatus : c.status ≠ .stopped := by
    rw [hpaused]
    exact nofun
  rw [next, perform, setKey, if_neg hstatus, hm]
  rfl

theorem resting_setKey_of_paused (hkey : key.toNat < 16) (pressed : Bool) :
    Resting c (c.next (.setKey key pressed)) (c.fills (.setKey key pressed)) := by
  have hrest : c.status ≠ .running := by
    rw [hpaused]
    exact nofun
  cases hwait : c.machine.keypad.execution with
  | running =>
    have hnone : c.fills (.setKey key pressed) = none := by
      cases pressed <;> simp [fills, hpaused, hwait]
    rw [next_setKey_of_paused hpaused (Machine.setKey_of_running hwait hkey pressed), hnone]
    exact ⟨hrest, rfl, hwait.symm, rfl, rfl, rfl⟩
  | awaitingKey x =>
    cases pressed with
    | false =>
      rw [next_setKey_of_paused hpaused (Machine.setKey_release c.machine hkey)]
      exact ⟨hrest, rfl, rfl, rfl, rfl, rfl⟩
    | true =>
      have hfill : c.fills (.setKey key true) = some (x, key) := by
        simp [fills, hpaused, hwait, hkey]
      rw [next_setKey_of_paused hpaused (Machine.setKey_press_of_awaiting hwait hkey), hfill]
      exact ⟨hrest, rfl, rfl, rfl, rfl, rfl⟩

end Paused

theorem resting_setKey {c : Console} (hrest : c.status ≠ .running) (key : UInt8)
    (pressed : Bool) :
    Resting c (c.next (.setKey key pressed)) (c.fills (.setKey key pressed)) := by
  cases hstatus : c.status with
  | running => exact absurd hstatus hrest
  | stopped =>
    have hnext : c.next (.setKey key pressed) = c := by
      rw [next, perform, setKey, if_pos hstatus]
      rfl
    have hnone : c.fills (.setKey key pressed) = none := by
      cases pressed <;> simp [fills, hstatus]
    rw [hnext, hnone]
    exact .refl hrest
  | paused =>
    by_cases hkey : key.toNat < 16
    · exact resting_setKey_of_paused hstatus hkey pressed
    · have hnext : c.next (.setKey key pressed) = c := by
        rw [next, perform, setKey, c.machine.setKey_of_le (Nat.not_lt.mp hkey), hstatus]
        rfl
      have hnone : c.fills (.setKey key pressed) = none := by
        cases pressed with
        | false => rfl
        | true => cases hwait : c.machine.keypad.execution <;> simp [fills, hstatus, hwait, hkey]
      rw [hnext, hnone]
      exact .refl hrest

theorem next_of_error {c : Console} {action : Action} {rejection : Rejection}
    (h : c.perform action = .error rejection) : c.next action = c := by
  rw [next, h]
  rfl

/-- A change of status to one that does not run. -/
theorem resting_setStatus {c : Console} (hrest : c.status ≠ .running) {status : Status}
    (hstatus : status ≠ .running) (note : Note) : Resting c (c.setStatus status note).1 none := by
  rw [setStatus]
  split
  · exact .of_machine_eq rfl rfl rfl rfl hstatus
  · exact .refl hrest

/-- One idle action: the console rests, and a register is filled if the action fills one. -/
theorem resting_next {c : Console} (hrest : c.status ≠ .running) {action : Action}
    (hidle : c.Idle action) : Resting c (c.next action) (c.fills action) := by
  cases action with
  | load | loadRom =>
    obtain ⟨rejection, hrefused⟩ := hidle
    rw [next_of_error hrefused]
    exact .refl hrest
  | pause => exact resting_setStatus hrest (by exact nofun) .pausing
  | stop => exact resting_setStatus hrest (by exact nofun) .stopping
  | setCycles cycles =>
    rw [next, perform, setCycles]
    cases checkCycles cycles with
    | error rejection => exact .refl hrest
    | ok cycles => exact .of_machine_eq rfl rfl rfl rfl hrest
  | tick =>
    rw [next, perform, tick, if_neg hrest]
    exact .refl hrest
  | setKey key pressed => exact resting_setKey hrest key pressed
  | play | stepOnce | replay | reset => cases hidle

/-- A register can only be filled by the first press if it is awaited from the start. -/
theorem awaiting_of_firstFill {c : Console} (hrest : c.status ≠ .running) {actions : List Action}
    (hidle : c.Idles actions) {x : Fin 16} {key : UInt8}
    (h : c.firstFill actions = some (x, key)) : c.machine.keypad.execution = .awaitingKey x := by
  induction actions generalizing c with
  | nil => cases h
  | cons action rest ih =>
    have hnext := resting_next hrest hidle.1
    rw [firstFill] at h
    cases hfills : c.fills action with
    | some fill =>
      rw [hfills] at h
      cases h
      exact awaiting_of_fills hfills
    | none =>
      rw [hfills] at h hnext
      exact hnext.execution.symm.trans (ih hnext.status hidle.2 h)

/-- Any idle actions: the console rests, and the first press that fills the awaited register is
the only one to do so. -/
theorem resting_after {c : Console} (hrest : c.status ≠ .running) {actions : List Action}
    (hidle : c.Idles actions) : Resting c (c.after actions) (c.firstFill actions) := by
  induction actions generalizing c with
  | nil => exact .refl hrest
  | cons action rest ih =>
    have hnext := resting_next hrest hidle.1
    have hlater := ih hnext.status hidle.2
    rw [firstFill]
    cases hfills : c.fills action with
    | none =>
      rw [hfills] at hnext
      exact hnext.prepend hlater
    | some fill =>
      rw [hfills] at hnext
      have hnone : (c.next action).firstFill rest = none := by
        cases hlast : (c.next action).firstFill rest with
        | none => rfl
        | some again =>
          have hwait := awaiting_of_firstFill hnext.status hidle.2 hlast
          rw [hnext.execution] at hwait
          cases hwait
      rw [hnone] at hlater
      exact hnext.append hlater

theorem callsOf_of_error {c : Console} {action : Action} {rejection : Rejection}
    (h : c.perform action = .error rejection) : c.callsOf action = [] := by
  rw [← callsIn_signals, signals, h]
  rfl

theorem callsOf_of_idle {c : Console} (hrest : c.status ≠ .running) {action : Action}
    (hidle : c.Idle action) : c.callsOf action = [] := by
  cases action with
  | load | loadRom =>
    obtain ⟨rejection, hrefused⟩ := hidle
    exact callsOf_of_error hrefused
  | tick => exact if_neg hrest
  | setKey | setCycles | pause | stop => rfl
  | play | stepOnce | replay | reset => cases hidle

/-- A recorder hears no call while the console rests. -/
theorem calls_actAll_of_idles {σ : Type} [Peripherals σ] {c : Console}
    (hrest : c.status ≠ .running) {actions : List Action} (hidle : c.Idles actions)
    (r : Recorded σ) :
    (c.actAll r actions).2.calls = r.calls := by
  induction actions generalizing c r with
  | nil => rfl
  | cons action rest ih =>
    have hcalls := callsOf_of_idle hrest hidle.1
    rw [actAll, act_recorded, ih (resting_next hrest hidle.1).status hidle.2, hcalls,
      List.append_nil]

theorem stepOnce_of_nothing_to_run {c : Console}
    (h : c.isLoaded = false ∨ c.machine.isAwaiting = true) : c.stepOnce = (c, []) := by
  rw [stepOnce, if_neg]
  rcases h with hunloaded | hwait
  · simp [hunloaded]
  · simp [hwait]

/-- A single step executes the next instruction; then the timers count down and the
frame is taken. -/
theorem stepOnce_of_something_to_run {c : Console} (hloaded : c.isLoaded = true)
    (hrun : c.machine.isAwaiting = false) :
    c.stepOnce.1 = { c with
      machine := { c.machine.advance with
        timers := c.machine.advance.timers.advance
        frame := c.machine.advance.frame.shown }
      watch := .ofRegisters c.machine.advance.registers
      status := .paused } := by
  have hcycle : (c.machine.cycle 1).2 = c.machine.advance := by
    rw [Machine.cycle_succ_of_running hrun]
    rfl
  have hticked := ticked_eq c.machine 1
  rw [hcycle] at hticked
  have hready : (c.isLoaded && !c.machine.isAwaiting) = true := by
    rw [hloaded, hrun]
    rfl
  have hmachine : ∀ d : Console, d.machine = c.machine → (d.runTick 1).1 = { d with
      machine := ticked c.machine 1, watch := .ofRegisters (ticked c.machine 1).registers } := by
    intro d hd
    rw [← hd]
    rfl
  rw [stepOnce, if_pos hready, hmachine { c with status := .paused } rfl, hticked]

/-- A console that does not run, and any idle actions. It never runs, it calls nobody, and its
program, its listing and its machine stay, except that keys go up and down and that a paused
program gets the key it has been waiting for: the first press, and that one only, is stored in the
awaited register. While the console is stopped a key event does nothing at all. In any state
whatever a single step does nothing if there is nothing to run; otherwise it executes one
instruction, counts the timers down once, and pauses. -/
theorem nothing_runs_untold (c : Console) :
    (c.status ≠ .running → ∀ idle, c.Idles idle →
      let d := c.after idle
      d.status ≠ .running ∧ d.program = c.program ∧ d.listing = c.listing ∧
        d.machine = { c.machine with
          registers := c.machine.registers.filled (c.firstFill idle)
          keypad := d.machine.keypad } ∧
        (∀ x key, c.firstFill idle = some (x, key) →
          c.machine.keypad.execution = .awaitingKey x) ∧
        ∀ {σ : Type} [Peripherals σ] (r : Recorded σ), (c.actAll r idle).2.calls = r.calls) ∧
      (c.status = .stopped → ∀ key pressed, c.setKey key pressed = .ok (c, [])) ∧
      (c.isLoaded = false ∨ c.machine.isAwaiting = true → c.stepOnce = (c, [])) ∧
      (c.isLoaded = true → c.machine.isAwaiting = false →
        ∃ next, c.machine.step = some (c.machine.registers.pc, next) ∧
          c.trail .stepOnce = [c.machine] ∧
          c.stepOnce.1 = { c with
            machine := { next with timers := next.timers.advance, frame := next.frame.shown }
            watch := .ofRegisters next.registers
            status := .paused }) := by
  refine ⟨fun hrest idle hidle => ?_, fun hstopped key pressed => if_pos hstopped,
    stepOnce_of_nothing_to_run, fun hloaded hrun => ?_⟩
  · have hresting := resting_after hrest hidle
    refine ⟨hresting.status, hresting.program, hresting.listing, hresting.machine, ?_, ?_⟩
    · intro x key hfill
      exact awaiting_of_firstFill hrest hidle hfill
    · intro σ _ r
      exact calls_actAll_of_idles hrest hidle r
  · refine ⟨_, Machine.step_of_running hrun, ?_, stepOnce_of_something_to_run hloaded hrun⟩
    rw [trail, hloaded, hrun, if_pos (by rfl), Machine.trail_succ_of_running hrun]
    rfl

/-- A single step from the stop executes a wait for a key. A key is refused, one is pressed
while the console is stopped again, and one is let go; then two are pressed, and the first of
these is stored. -/
theorem nothing_runs_untold_while_waiting :
    let start := (fresh .standard (.ofSeed 7)).after [.load [0xF3, 0x0A, 0x12, 0x00] false]
    let c := start.stepOnce.1
    let idle : List Action := [.tick, .setKey 0x10 true, .stop, .setKey 4 true, .setCycles 31,
      .load [] true, .loadRom [.failed "gone"] true, .pause, .setKey 5 false, .setKey 7 true,
      .setKey 9 true, .tick]
    (start.status = .stopped ∧ start.setKey 4 true = .ok (start, [])) ∧
      (start.isLoaded = true ∧ start.machine.isAwaiting = false ∧ c.status = .paused) ∧
      (c.machine.isAwaiting = true ∧ c.stepOnce = (c, [])) ∧
      c.Idles idle ∧ c.firstFill idle = some (3, 7) ∧
      c.machine.keypad.execution = .awaitingKey 3 ∧
      (c.after idle).machine.registers = c.machine.registers.set 3 7 := by
  intro start c idle
  have hstopped : start.status = .stopped := by decide +kernel
  have hloaded : start.isLoaded = true := by decide +kernel
  have hready : start.machine.isAwaiting = false := by decide +kernel
  obtain ⟨-, hkeys, -, hstep⟩ := nothing_runs_untold start
  obtain ⟨m, -, -, hc⟩ := hstep hloaded hready
  have hpaused : c.status = .paused := congrArg status hc
  have hrest : c.status ≠ .running := by
    rw [hpaused]
    exact nofun
  have hidle : c.Idles idle := by
    refine ⟨trivial, trivial, trivial, trivial, trivial, ⟨.emptyProgram, rfl⟩,
      ⟨.unreadable "gone", rfl⟩, trivial, trivial, trivial, trivial, trivial, trivial⟩
  have hfill : c.firstFill idle = some (3, 7) := by decide +kernel
  have hwait : c.machine.isAwaiting = true := by decide +kernel
  obtain ⟨hall, -, hnothing, -⟩ := nothing_runs_untold c
  obtain ⟨-, -, -, hmachine, hawaited, -⟩ := hall hrest idle hidle
  refine ⟨⟨hstopped, hkeys hstopped 4 true⟩, ⟨hloaded, hready, hpaused⟩,
    ⟨hwait, hnothing (.inr hwait)⟩, hidle, hfill, hawaited 3 7 hfill, ?_⟩
  rw [hmachine, hfill]
  rfl

end Console
end ChipEight
