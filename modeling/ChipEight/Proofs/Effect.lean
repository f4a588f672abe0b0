import ChipEight.Machine.Run

/-!
What an instruction makes of each part of the machine. Every part has one equation, so a proof
about one of them need not look at the others. Only a clear and a draw touch the frame, only a
wait for a key touches the keypad, and only a random instruction takes a random byte.
-/
namespace ChipEight

namespace Instruction

def isRandom : Instruction → Bool
  | random .. => true
  | _ => false

end Instruction

namespace Registers

theorem stack_skipIf (r : Registers) (condition : Bool) :
    (r.skipIf condition).stack = r.stack := by
  cases condition <;> rfl

theorem ret_of_stack_cons {r : Registers} {address : UInt16} {rest : List UInt16}
    (h : r.stack = address :: rest) : r.ret = { r with pc := address, stack := rest } := by
  rw [ret, pop, h]
  rfl

theorem ret_of_stack_nil {r : Registers} (h : r.stack = []) : r.ret = r := by
  rw [ret, pop, h]

theorem stack_ret (r : Registers) : r.ret.stack = r.stack.tail := by
  cases h : r.stack with
  | nil => rw [ret_of_stack_nil h, h, List.tail_nil]
  | cons address rest => rw [ret_of_stack_cons h, List.tail_cons]

end Registers

namespace Machine

def sprite (m : Machine) (n : Fin 16) : List UInt8 := m.memory.readSpan m.registers.i n.val

def frameAfter (m : Machine) : Instruction → Frame
  | .clear => m.frame.clear
  | .draw x y n => (m.frame.draw (m.reg x).toNat (m.reg y).toNat (m.sprite n)).2
  | _ => m.frame

def keypadAfter (m : Machine) : Instruction → Keypad
  | .awaitKey x => m.keypad.await x
  | _ => m.keypad

def timersAfter (m : Machine) : Instruction → Timers
  | .setDelay x => { m.timers with delay := m.reg x }
  | .setSound x => { m.timers with sound := m.reg x }
  | _ => m.timers

def stackAfter (m : Machine) : Instruction → List UInt16
  | .call _ => m.registers.pc :: m.registers.stack
  | .ret => m.registers.stack.tail
  | _ => m.registers.stack

theorem config_execute (m : Machine) (i : Instruction) : (m.execute i).config = m.config := by
  cases i with
  -- A load fills a whole vector, and the comparison of parts would look into it first.
  | loadRegisters => rw [execute, loadRegisters, mapRegisters]
  | _ => rfl

theorem frame_execute (m : Machine) (i : Instruction) :
    (m.execute i).frame = m.frameAfter i := by
  cases i with
  | loadRegisters => rw [execute, loadRegisters, mapRegisters]; rfl
  | _ => rfl

theorem keypad_execute (m : Machine) (i : Instruction) :
    (m.execute i).keypad = m.keypadAfter i := by
  cases i with
  | loadRegisters => rw [execute, loadRegisters, mapRegisters]; rfl
  | _ => rfl

theorem timers_execute (m : Machine) (i : Instruction) :
    (m.execute i).timers = m.timersAfter i := by
  cases i with
  | loadRegisters => rw [execute, loadRegisters, mapRegisters]; rfl
  | _ => rfl

theorem random_execute (m : Machine) (i : Instruction) :
    (m.execute i).random = if i.isRandom then m.random.skipOne else m.random := by
  cases i with
  | loadRegisters => rw [execute, loadRegisters, mapRegisters]; rfl
  | _ => rfl

/-- Calls and returns alone move the stack: neither a skip nor a store reaches it. -/
theorem stack_execute (m : Machine) (i : Instruction) :
    (m.execute i).registers.stack = m.stackAfter i := by
  cases i with
  | ret => exact Registers.stack_ret _
  | skipEqual | skipNotEqual | skipRegistersEqual | skipRegistersNotEqual | skipPressed
  | skipNotPressed => exact Registers.stack_skipIf ..
  | loadRegisters => rw [execute, loadRegisters, mapRegisters]; rfl
  | _ => rfl

@[simp] theorem config_advance (m : Machine) : m.advance.config = m.config :=
  config_execute ..

theorem frame_advance (m : Machine) : m.advance.frame = m.frameAfter m.nextInstruction :=
  frame_execute ..

theorem stack_advance (m : Machine) :
    m.advance.registers.stack =
      (m.mapRegisters Registers.advance).stackAfter m.nextInstruction :=
  stack_execute ..

theorem keypad_advance (m : Machine) : m.advance.keypad = m.keypadAfter m.nextInstruction :=
  keypad_execute ..

theorem timers_advance (m : Machine) : m.advance.timers = m.timersAfter m.nextInstruction := by
  rw [advance, timers_execute]
  cases m.nextInstruction <;> rfl

theorem isAwaiting_iff (m : Machine) :
    m.isAwaiting = true ↔ ∃ x, m.keypad.execution = .awaitingKey x := by
  unfold isAwaiting Keypad.isAwaiting
  cases m.keypad.execution with
  | running => simp
  | awaitingKey x => simp

theorem isAwaiting_eq_false_iff (m : Machine) :
    m.isAwaiting = false ↔ m.keypad.execution = .running := by
  unfold isAwaiting Keypad.isAwaiting
  cases m.keypad.execution <;> simp

/-- Only a wait for a key suspends a running machine, and it does. -/
theorem execution_advance_eq_awaitingKey_iff {m : Machine} (h : m.isAwaiting = false)
    (x : Fin 16) :
    m.advance.keypad.execution = .awaitingKey x ↔ m.nextInstruction = .awaitKey x := by
  have hrun := m.isAwaiting_eq_false_iff.mp h
  rw [keypad_advance]
  cases m.nextInstruction <;> simp [keypadAfter, Keypad.await, hrun]

/-- A key event reaches only the keypad and the registers. -/
theorem eq_of_setKey {m n : Machine} {key : UInt8} {pressed : Bool}
    (h : m.setKey key pressed = .ok n) :
    n = { m with keypad := n.keypad, registers := n.registers } := by
  unfold setKey at h
  cases hk : m.keypad.setKey key pressed with
  | error rejection =>
    rw [hk] at h
    cases h
  | ok keypad =>
    rw [hk] at h
    cases ha : m.keypad.awaited pressed <;> (rw [ha] at h; cases h; rfl)

/-- A frame that is taken is left clean, which it is as well if there is none to take. -/
theorem takeFrame_snd (m : Machine) : m.takeFrame.2 = { m with frame := m.frame.shown } := by
  rw [takeFrame]
  split
  · rfl
  · next hclean => rw [Frame.shown_of_clean (Bool.eq_false_iff.mpr hclean)]

def withRandom (m : Machine) (random : RandomBytes) : Machine := { m with random }

theorem execute_withRandom (m : Machine) (random : RandomBytes) {i : Instruction}
    (h : i.isRandom = false) :
    (m.withRandom random).execute i = (m.execute i).withRandom random := by
  cases i with
  | random x nn => cases h
  | _ => rfl

theorem advance_withRandom (m : Machine) (random : RandomBytes)
    (h : m.nextInstruction.isRandom = false) :
    (m.withRandom random).advance = m.advance.withRandom random :=
  execute_withRandom (m.mapRegisters Registers.advance) random h

end Machine
end ChipEight
