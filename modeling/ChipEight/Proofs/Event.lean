import ChipEight.Proofs.Loading
import ChipEight.Proofs.Trail

/-!
What can be done with a machine from outside, as data, and the machine after any list of it. A
budget of one instruction is the single step of a scheduler.
-/
namespace ChipEight.Machine

inductive Event
  | step
  | tick (budget : Nat)
  | advanceTimers
  | takeFrame
  | setKey (key : UInt8) (pressed : Bool)
  | load (program : List UInt8)
  | reset
deriving DecidableEq, Repr

/-- The machine after an event; a refused one changes nothing. -/
def respond (m : Machine) : Event → Machine
  | .step =>
    match m.step with
    | some (_, next) => next
    | none => m
  | .tick budget => (m.tick budget).2
  | .advanceTimers => m.advanceTimers.2
  | .takeFrame => m.takeFrame.2
  | .setKey key pressed =>
    match m.setKey key pressed with
    | .ok next => next
    | .error _ => m
  | .load program =>
    match m.load program with
    | .ok next => next
    | .error _ => m
  | .reset => m.reset

def respondAll (m : Machine) (events : List Event) : Machine := events.foldl respond m

theorem respondAll_append (m : Machine) (first second : List Event) :
    m.respondAll (first ++ second) = (m.respondAll first).respondAll second :=
  List.foldl_append

def eventTrail (m : Machine) : Event → List Machine
  | .step => m.trail 1
  | .tick budget => m.trail budget
  | _ => []

def trailAll (m : Machine) : List Event → List Machine
  | [] => []
  | event :: rest => m.eventTrail event ++ (m.respond event).trailAll rest

theorem trailAll_append (m : Machine) (first second : List Event) :
    m.trailAll (first ++ second) = m.trailAll first ++ (m.respondAll first).trailAll second := by
  induction first generalizing m with
  | nil => rfl
  | cons event rest ih =>
    rw [List.cons_append, trailAll, ih, trailAll, List.append_assoc]
    rfl

def Event.KeepsProgram : Event → Prop
  | load _ | reset => False
  | step | tick _ | advanceTimers | takeFrame | setKey .. => True

theorem respond_step_of_running {m : Machine} (h : m.isAwaiting = false) :
    m.respond .step = m.advance := by
  rw [respond, step_of_running h]

theorem respond_step_of_awaiting {m : Machine} (h : m.isAwaiting = true) :
    m.respond .step = m := by
  rw [respond, (step_eq_none_iff m).mpr h]

/-- A single step is a cycle of one. -/
theorem respond_step (m : Machine) : m.respond .step = (m.cycle 1).2 := by
  cases hrun : m.isAwaiting with
  | true => rw [respond_step_of_awaiting hrun, cycle_of_awaiting hrun]
  | false => rw [respond_step_of_running hrun, cycle_succ_of_running hrun, cycle]

/-- While a key is awaited a tick only counts the timers down. -/
theorem respond_tick_of_awaiting {m : Machine} (h : m.isAwaiting = true) (budget : Nat) :
    m.respond (.tick budget) = { m with timers := m.timers.advance } := by
  have htick : m.respond (.tick budget) = (m.cycle budget).2.advanceTimers.2 := rfl
  rw [htick, cycle_of_awaiting h]
  rfl

theorem respond_load_of_acceptable (m : Machine) {program : List UInt8}
    (h : Acceptable program) : m.respond (.load program) = m.loaded program := by
  rw [respond, m.load_of_acceptable h]

theorem respond_load_of_not_acceptable (m : Machine) {program : List UInt8}
    (h : ¬ Acceptable program) : m.respond (.load program) = m := by
  obtain ⟨rejection, hr⟩ := m.load_of_not_acceptable h
  rw [respond, hr]

theorem respond_takeFrame (m : Machine) :
    m.respond .takeFrame = { m with frame := m.frame.shown } :=
  m.takeFrame_snd

theorem keypad_takeFrame (m : Machine) : (m.respond .takeFrame).keypad = m.keypad := by
  rw [respond_takeFrame]

/-- A key event, taken or not, reaches only the keypad and the registers. -/
theorem respond_setKey_eq (m : Machine) (key : UInt8) (pressed : Bool) :
    m.respond (.setKey key pressed) = { m with
      keypad := (m.respond (.setKey key pressed)).keypad
      registers := (m.respond (.setKey key pressed)).registers } := by
  rw [respond]
  split
  · next hkey => exact eq_of_setKey hkey
  · rfl

theorem setKey_of_le (m : Machine) {key : UInt8} (h : 16 ≤ key.toNat) (pressed : Bool) :
    m.setKey key pressed = .error (.keyOutOfRange key) := by
  rw [setKey, (Keypad.setKey_eq_error_iff ..).mpr h]

/-- A release is always taken, and changes nothing but the state of its key. -/
theorem setKey_release (m : Machine) {key : UInt8} (h : key.toNat < 16) :
    m.setKey key false = .ok { m with
      keypad := { m.keypad with pressed := m.keypad.pressed.set key.toNat false h } } := by
  have hawaited : m.keypad.awaited false = none := by
    unfold Keypad.awaited
    split
    · next h => cases h
    · rfl
  simp only [setKey, Keypad.setKey, dif_pos h, hawaited]
  rfl

/-- A press while a key is awaited ends the wait and fills the awaited register. -/
theorem setKey_press_of_awaiting {m : Machine} {x : Fin 16}
    (hwait : m.keypad.execution = .awaitingKey x) {key : UInt8} (h : key.toNat < 16) :
    m.setKey key true = .ok { m with
      registers := m.registers.set x key
      keypad := ⟨m.keypad.pressed.set key.toNat true h, .running⟩ } := by
  have hawaited : m.keypad.awaited true = some x := by
    simp only [Keypad.awaited, hwait]
  simp only [setKey, Keypad.setKey, dif_pos h, hawaited]
  rfl

/-- While no key is awaited a key event changes nothing but the state of its key. -/
theorem setKey_of_running {m : Machine} (hrun : m.keypad.execution = .running) {key : UInt8}
    (h : key.toNat < 16) (pressed : Bool) :
    m.setKey key pressed = .ok { m with
      keypad := ⟨m.keypad.pressed.set key.toNat pressed h, .running⟩ } := by
  have hawaited : m.keypad.awaited pressed = none := by
    simp only [Keypad.awaited, hrun]
  simp only [setKey, Keypad.setKey, dif_pos h, hawaited, hrun, ite_self]

theorem respond_setKey_of_le (m : Machine) {key : UInt8} (h : 16 ≤ key.toNat) (pressed : Bool) :
    m.respond (.setKey key pressed) = m := by
  rw [respond, m.setKey_of_le h]

theorem respond_release (m : Machine) {key : UInt8} (h : key.toNat < 16) :
    m.respond (.setKey key false) = { m with
      keypad := { m.keypad with pressed := m.keypad.pressed.set key.toNat false h } } := by
  rw [respond, m.setKey_release h]

/-- A key event decides about its own key alone. -/
theorem isPressed_respond_setKey (m : Machine) {code : UInt8} (h : code.toNat < 16)
    (pressed : Bool) (key : UInt8) :
    (m.respond (.setKey code pressed)).isPressed key =
      if key = code then pressed else m.isPressed key := by
  cases hk : m.keypad.setKey code pressed with
  | error rejection =>
    rw [Keypad.setKey, dif_pos h] at hk
    cases hk
  | ok keypad =>
    have hpressed := Keypad.isPressed_setKey hk key
    cases ha : m.keypad.awaited pressed <;>
      simpa only [respond, setKey, hk, ha, isPressed] using hpressed

/-- A press of a key of the keypad leaves a machine running; no other key event has a
say in that. -/
theorem execution_respond_setKey (m : Machine) (key : UInt8) (pressed : Bool) :
    (m.respond (.setKey key pressed)).keypad.execution =
      if pressed = true ∧ key.toNat < 16 then .running else m.keypad.execution := by
  by_cases hkey : key.toNat < 16
  · have hset : m.keypad.setKey key pressed = .ok ⟨m.keypad.pressed.set key.toNat pressed hkey,
        if pressed then .running else m.keypad.execution⟩ := dif_pos hkey
    cases ha : m.keypad.awaited pressed <;> simp [respond, setKey, hset, ha, hkey]
  · rw [m.respond_setKey_of_le (Nat.not_lt.mp hkey), if_neg fun h => hkey h.2]

theorem isPressed_of_le (m : Machine) {key : UInt8} (h : 16 ≤ key.toNat) :
    m.isPressed key = false := by
  rw [isPressed, Keypad.isPressed, Vector.getElem?_eq_none h]
  rfl

/-- What every event keeps, a list of events keeps. -/
theorem respondAll_induction {P : Machine → Prop} {allowed : Event → Prop}
    (hrespond : ∀ m event, allowed event → P m → P (m.respond event)) {events : List Event}
    (hall : ∀ event ∈ events, allowed event) {m : Machine} (h : P m) :
    P (m.respondAll events) := by
  induction events generalizing m with
  | nil => exact h
  | cons event rest ih =>
    have hfirst := hrespond m event (hall event (List.mem_cons_self ..)) h
    exact ih (fun e he => hall e (List.mem_cons_of_mem _ he)) hfirst

end ChipEight.Machine
