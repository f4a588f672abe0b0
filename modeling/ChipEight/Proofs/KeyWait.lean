import ChipEight.Proofs.Event

/-!
Waiting for a key. Once a wait instruction has been executed nothing moves but the timers and the
keys that are let go, however long steps, ticks, releases and refused codes go on. The first press
of a key fills the awaited register and the next step continues behind the wait. A wait begins in
no other way, and only such a press, a load or a reset ends it.
-/
namespace ChipEight.Machine

namespace Event

/-- Steps, ticks, releases and codes beyond the keypad: everything but a press of a key, a load, a
reset and a look at the frame. -/
def KeepsWaiting : Event → Prop
  | step | tick _ | advanceTimers => True
  | setKey key pressed => pressed = true → 16 ≤ key.toNat
  | takeFrame | load _ | reset => False

/-- While the wait goes on, a key of the keypad can only be let go. -/
theorem KeepsWaiting.not_pressed {key : UInt8} {pressed : Bool}
    (h : (setKey key pressed).KeepsWaiting) (hkey : key.toNat < 16) : pressed = false := by
  rw [← Bool.not_eq_true]
  intro hpressed
  exact absurd (h hpressed) (Nat.not_le.mpr hkey)

def countsDown : Event → Bool
  | tick _ | advanceTimers => true
  | _ => false

def IsPress : Event → Prop
  | setKey key pressed => pressed = true ∧ key.toNat < 16
  | _ => False

end Event

/-- In `m` a key is awaited for `x`, and apart from timers and keys `m` is what `start` was. -/
structure Suspended (start : Machine) (x : Fin 16) (m : Machine) : Prop where
  execution : m.keypad.execution = .awaitingKey x
  config : m.config = start.config
  random : m.random = start.random
  memory : m.memory = start.memory
  registers : m.registers = start.registers
  frame : m.frame = start.frame

namespace Suspended

variable {start m : Machine} {x : Fin 16}

theorem refl (h : m.keypad.execution = .awaitingKey x) : Suspended m x m :=
  ⟨h, rfl, rfl, rfl, rfl, rfl⟩

theorem isAwaiting (h : Suspended start x m) : m.isAwaiting = true :=
  m.isAwaiting_iff.mpr ⟨x, h.execution⟩

theorem withTimers (h : Suspended start x m) (timers : Timers) :
    Suspended start x { m with timers } :=
  ⟨h.execution, h.config, h.random, h.memory, h.registers, h.frame⟩

theorem withPressed (h : Suspended start x m) (pressed : Vector Bool 16) :
    Suspended start x { m with keypad := { m.keypad with pressed } } :=
  ⟨h.execution, h.config, h.random, h.memory, h.registers, h.frame⟩

theorem respond (h : Suspended start x m) {event : Event} (he : event.KeepsWaiting) :
    Suspended start x (m.respond event) := by
  cases event with
  | step => rwa [respond_step_of_awaiting h.isAwaiting]
  | tick budget =>
    rw [respond_tick_of_awaiting h.isAwaiting]
    exact h.withTimers _
  | advanceTimers => exact h.withTimers _
  | setKey key pressed =>
    by_cases hkey : key.toNat < 16
    · rw [he.not_pressed hkey, m.respond_release hkey]
      exact h.withPressed _
    · rwa [m.respond_setKey_of_le (Nat.not_lt.mp hkey)]
  | takeFrame => exact he.elim
  | load program => exact he.elim
  | reset => exact he.elim

theorem respondAll (h : Suspended start x m) {events : List Event}
    (hall : ∀ event ∈ events, event.KeepsWaiting) : Suspended start x (m.respondAll events) :=
  respondAll_induction (P := Suspended start x) (fun _ _ he hs => hs.respond he) hall h

theorem step_eq_none (h : Suspended start x m) : m.step = none :=
  (step_eq_none_iff m).mpr h.isAwaiting

theorem cycle_eq (h : Suspended start x m) (budget : Nat) : m.cycle budget = ([], m) :=
  cycle_of_awaiting h.isAwaiting budget

theorem executed_tick (h : Suspended start x m) (budget : Nat) :
    (m.tick budget).1.executed = [] := by
  have htick : (m.tick budget).1.executed = (m.cycle budget).1.filterMap Listing.indexOf := rfl
  rw [htick, h.cycle_eq]
  rfl

/-- Both timers go down by one at a tick and at nothing else. -/
theorem timers_respond (h : Suspended start x m) {event : Event} (he : event.KeepsWaiting) :
    (m.respond event).timers = if event.countsDown then m.timers.advance else m.timers := by
  cases event with
  | step => rw [respond_step_of_awaiting h.isAwaiting]; rfl
  | tick budget => rw [respond_tick_of_awaiting h.isAwaiting]; rfl
  | advanceTimers => rfl
  | setKey key pressed => rw [respond_setKey_eq]; rfl
  | takeFrame => exact he.elim
  | load program => exact he.elim
  | reset => exact he.elim

theorem timers_respondAll (h : Suspended start x m) {events : List Event}
    (hall : ∀ event ∈ events, event.KeepsWaiting) :
    (m.respondAll events).timers.delay.toNat =
        m.timers.delay.toNat - events.countP Event.countsDown ∧
      (m.respondAll events).timers.sound.toNat =
        m.timers.sound.toNat - events.countP Event.countsDown := by
  induction events generalizing m with
  | nil => exact ⟨rfl, rfl⟩
  | cons event rest ih =>
    have he : event.KeepsWaiting := hall event (List.mem_cons_self ..)
    obtain ⟨hdelay, hsound⟩ :=
      ih (h.respond he) (fun e hmem => hall e (List.mem_cons_of_mem _ hmem))
    have htimers := h.timers_respond he
    have hcons : m.respondAll (event :: rest) = (m.respond event).respondAll rest := rfl
    rw [hcons, hdelay, hsound, htimers, List.countP_cons]
    cases hdown : event.countsDown with
    | false => exact ⟨rfl, rfl⟩
    | true =>
      simp only [if_true, Timers.advance, Timers.toNat_countDown]
      omega

/-- A key is pressed as long as it was at the start and has not been let go. -/
theorem isPressed_respond (h : Suspended start x m) {event : Event} (he : event.KeepsWaiting)
    (key : UInt8) :
    (m.respond event).isPressed key = (m.isPressed key && event != .setKey key false) := by
  cases event with
  | step => rw [respond_step_of_awaiting h.isAwaiting]; simp
  | tick budget => rw [respond_tick_of_awaiting h.isAwaiting]; simp [Machine.isPressed]
  | advanceTimers => simp [Machine.respond, advanceTimers, Machine.isPressed]
  | setKey code pressed =>
    by_cases hcode : code.toNat < 16
    · rw [he.not_pressed hcode, m.isPressed_respond_setKey hcode]
      by_cases hkey : key = code
      · simp [hkey]
      · simp [hkey, Ne.symm hkey]
    · have hle : 16 ≤ code.toNat := Nat.not_lt.mp hcode
      rw [m.respond_setKey_of_le hle]
      by_cases hkey : key = code
      · rw [hkey, m.isPressed_of_le hle]; rfl
      · simp [Ne.symm hkey]
  | takeFrame => exact he.elim
  | load program => exact he.elim
  | reset => exact he.elim

theorem isPressed_respondAll (h : Suspended start x m) {events : List Event}
    (hall : ∀ event ∈ events, event.KeepsWaiting) (key : UInt8) :
    (m.respondAll events).isPressed key =
      (m.isPressed key && events.all (· != .setKey key false)) := by
  induction events generalizing m with
  | nil => simp [Machine.respondAll]
  | cons event rest ih =>
    have he : event.KeepsWaiting := hall event (List.mem_cons_self ..)
    have hrest := ih (h.respond he) (fun e hmem => hall e (List.mem_cons_of_mem _ hmem))
    have hcons : m.respondAll (event :: rest) = (m.respond event).respondAll rest := rfl
    rw [hcons, hrest, h.isPressed_respond he, List.all_cons, Bool.and_assoc]

end Suspended

/-- A wait begins with the execution of a wait instruction, as the last one of its event. -/
theorem wait_begins {m : Machine} {event : Event} {x : Fin 16} (hrun : m.isAwaiting = false)
    (h : (m.respond event).keypad.execution = .awaitingKey x) :
    ∃ s, (m.eventTrail event).getLast? = some s ∧ s.isAwaiting = false ∧
      s.nextInstruction = .awaitKey x := by
  have hexecution := m.isAwaiting_eq_false_iff.mp hrun
  cases event with
  | step =>
    rw [respond_step_of_running hrun] at h
    refine ⟨m, ?_, hrun, (execution_advance_eq_awaitingKey_iff hrun x).mp h⟩
    rw [eventTrail, trail_succ_of_running hrun]
    rfl
  | tick budget => exact getLast?_trail_of_awaiting hrun h
  | advanceTimers => cases hexecution.symm.trans h
  | takeFrame =>
    rw [keypad_takeFrame] at h
    cases hexecution.symm.trans h
  | setKey key pressed =>
    rw [execution_respond_setKey, hexecution, ite_self] at h
    cases h
  | load program =>
    by_cases hp : Acceptable program
    · rw [m.respond_load_of_acceptable hp] at h
      cases h
    · rw [m.respond_load_of_not_acceptable hp] at h
      cases hexecution.symm.trans h
  | reset => cases h

/-- Only the press of a key, an accepted program and a reset end a wait. -/
theorem wait_ends {m : Machine} {event : Event} {x : Fin 16}
    (h : m.keypad.execution = .awaitingKey x) :
    (m.respond event).keypad.execution = .awaitingKey x ∨ event.IsPress ∨
      event = .reset ∨ ∃ program, event = .load program ∧ Acceptable program := by
  have hkeeps : event.KeepsWaiting → (m.respond event).keypad.execution = .awaitingKey x :=
    fun he => ((Suspended.refl h).respond he).execution
  cases event with
  | step => exact .inl (hkeeps trivial)
  | tick budget => exact .inl (hkeeps trivial)
  | advanceTimers => exact .inl h
  | takeFrame =>
    rw [keypad_takeFrame]
    exact .inl h
  | setKey key pressed =>
    by_cases hpress : pressed = true ∧ key.toNat < 16
    · exact .inr (.inl hpress)
    · rw [execution_respond_setKey, if_neg hpress]
      exact .inl h
  | load program =>
    by_cases hp : Acceptable program
    · exact .inr (.inr (.inr ⟨program, rfl, hp⟩))
    · rw [m.respond_load_of_not_acceptable hp]
      exact .inl h
  | reset => exact .inr (.inr (.inl rfl))

/-- The first press of a key fills the awaited register, and the next step goes on
behind the wait. -/
theorem Suspended.resume {start m : Machine} {x : Fin 16} (h : Suspended start x m)
    {key : UInt8} (hkey : key.toNat < 16) :
    ∃ resumed, m.setKey key true = .ok resumed ∧ resumed.keypad.execution = .running ∧
      resumed = { m with registers := m.registers.set x key, keypad := resumed.keypad } ∧
      resumed.step = some (start.registers.pc, resumed.advance) := by
  refine ⟨_, setKey_press_of_awaiting h.execution hkey, rfl, rfl, ?_⟩
  rw [step_of_running rfl]
  simp only [Registers.set, h.registers]

/-- A wait instruction moves past itself and suspends the machine. -/
theorem advance_of_awaitKey {m : Machine} {x : Fin 16} (h : m.nextInstruction = .awaitKey x) :
    m.advance = { m with registers := m.registers.advance, keypad := m.keypad.await x } := by
  rw [advance, h]
  rfl

/-- The protocol of a wait for a key. After a wait instruction fetched at some address nothing but
timers and releases goes on, until the first press of a key fills the register and the step after
it fetches two bytes further on. A new machine does not wait; waits begin with the execution of
such an instruction only, and end with such a press, a load or a reset only. -/
theorem key_wait_protocol :
    (∀ (m : Machine) (x : Fin 16), m.isAwaiting = false → m.nextInstruction = .awaitKey x →
      m.step = some (m.registers.pc, m.advance) ∧
        ∀ events, (∀ event ∈ events, event.KeepsWaiting) →
          let waiting := m.advance.respondAll events
          Suspended m.advance x waiting ∧ waiting.step = none ∧
            (∀ budget, waiting.cycle budget = ([], waiting) ∧
              (waiting.tick budget).1.executed = []) ∧
            (waiting.timers.delay.toNat =
                m.timers.delay.toNat - events.countP Event.countsDown ∧
              waiting.timers.sound.toNat =
                m.timers.sound.toNat - events.countP Event.countsDown) ∧
            (∀ key, waiting.isPressed key =
              (m.isPressed key && events.all (· != .setKey key false))) ∧
            ∀ key, key.toNat < 16 → ∃ resumed, waiting.setKey key true = .ok resumed ∧
              resumed.keypad.execution = .running ∧
              resumed = { waiting with
                registers := waiting.registers.set x key, keypad := resumed.keypad } ∧
              (∀ y, resumed.registers.get y =
                if x = y then key else waiting.registers.get y) ∧
              resumed.step = some (m.registers.pc + 2, resumed.advance)) ∧
    (∀ config random, (boot config random).isAwaiting = false) ∧
    (∀ (m : Machine) (event : Event) (x : Fin 16), m.isAwaiting = false →
      (m.respond event).keypad.execution = .awaitingKey x →
        ∃ s, (m.eventTrail event).getLast? = some s ∧ s.nextInstruction = .awaitKey x) ∧
    ∀ (m : Machine) (event : Event) (x : Fin 16), m.keypad.execution = .awaitingKey x →
      x.val < 16 ∧
        ((m.respond event).keypad.execution = .awaitingKey x ∨ event.IsPress ∨
          event = .reset ∨ ∃ program, event = .load program ∧ Acceptable program) := by
  refine ⟨fun m x hrun hnext => ⟨step_of_running hrun, fun events hall => ?_⟩,
    fun _ _ => rfl, ?_, ?_⟩
  · have hadvance := advance_of_awaitKey hnext
    have hstart : Suspended m.advance x m.advance := by
      apply Suspended.refl
      rw [hadvance]
      rfl
    have hwait : Suspended m.advance x (m.advance.respondAll events) := hstart.respondAll hall
    have htimers : m.advance.timers = m.timers := by rw [hadvance]
    have hpressed : ∀ key, m.advance.isPressed key = m.isPressed key := by
      intro key
      rw [hadvance]
      rfl
    refine ⟨hwait, hwait.step_eq_none,
      fun budget => ⟨hwait.cycle_eq budget, hwait.executed_tick budget⟩,
      ?_, fun key => ?_, fun key hkey => ?_⟩
    · rw [← htimers]
      exact hstart.timers_respondAll hall
    · rw [← hpressed]
      exact hstart.isPressed_respondAll hall key
    · obtain ⟨resumed, hset, hexecution, hresumed, hstep⟩ := hwait.resume hkey
      refine ⟨resumed, hset, hexecution, hresumed, fun y => ?_, ?_⟩
      · rw [hresumed]
        exact Registers.get_set ..
      · rw [hstep, hadvance]
        rfl
  · intro m event x hrun h
    obtain ⟨s, hlast, -, hs⟩ := wait_begins hrun h
    exact ⟨s, hlast, hs⟩
  · exact fun m event x h => ⟨x.isLt, wait_ends h⟩

/-- A program that waits for a key at once, through a tick, a release, a refused code
and a step. -/
theorem key_wait_of_loaded_program :
    let m := (boot .standard (.ofSeed 7)).loaded [0xF3, 0x0A]
    m.isAwaiting = false ∧ m.nextInstruction = .awaitKey 3 ∧
      Suspended m.advance 3
        (m.advance.respondAll [.tick 5, .setKey 4 false, .setKey 16 true, .step]) := by
  intro m
  have hnext : m.nextInstruction = .awaitKey 3 := by decide +kernel
  have hwait := (key_wait_protocol.1 m 3 rfl hnext).2
    [.tick 5, .setKey 4 false, .setKey 16 true, .step] (by simp [Event.KeepsWaiting])
  exact ⟨rfl, hnext, hwait.1⟩

end ChipEight.Machine
