import ChipEight.Proofs.Event
import Mathlib.Data.List.Forall2

/-!
Addresses count only modulo the size of memory. Two machines that differ in the multiple of that
size in the index register, in the program counter and in the addresses on the stack read and
write the same cells, so they execute the same instructions and go on to differ in nothing else,
through any events.
-/
namespace ChipEight

namespace Memory

def SameCell (a b : UInt16) : Prop := cell a = cell b

theorem sameCell_iff (a b : UInt16) : SameCell a b ↔ a.toNat % 4096 = b.toNat % 4096 := by
  rw [SameCell, Fin.ext_iff, cell_val, cell_val]

namespace SameCell

variable {a b : UInt16}

theorem refl (a : UInt16) : SameCell a a := rfl

/-- The sum wraps at sixteen bits, which is a multiple of the size of memory. -/
theorem add (h : SameCell a b) (offset : UInt16) : SameCell (a + offset) (b + offset) := by
  rw [sameCell_iff] at h ⊢
  simp only [UInt16.toNat_add]
  omega

end SameCell

variable {a b : UInt16}

theorem readWord_congr (m : Memory) (h : SameCell a b) : m.readWord a = m.readWord b := by
  rw [readWord, readWord, m.read_congr h, m.read_congr (h.add 1)]

theorem readSpan_congr (m : Memory) (h : SameCell a b) (length : Nat) :
    m.readSpan a length = m.readSpan b length := by
  simp only [readSpan, span, List.map_map]
  apply List.map_congr_left
  intro k _
  exact m.read_congr (h.add (UInt16.ofNat k))

theorem store_congr (m : Memory) (h : SameCell a b) (bytes : List UInt8) :
    m.store a bytes = m.store b bytes := by
  induction bytes generalizing m a b with
  | nil => rfl
  | cons byte rest ih => rw [store, store, m.write_congr byte h, ih _ (h.add 1)]

end Memory

open Memory (SameCell)

structure Registers.Congruent (r s : Registers) : Prop where
  v : r.v = s.v
  i : SameCell r.i s.i
  pc : SameCell r.pc s.pc
  stack : List.Forall₂ SameCell r.stack s.stack

namespace Registers.Congruent

variable {r s : Registers}

theorem get (h : Congruent r s) (x : Fin 16) : r.get x = s.get x := by
  rw [Registers.get, Registers.get, h.v]

theorem withV (h : Congruent r s) {v w : Vector UInt8 16} (hvw : v = w) :
    Congruent { r with v := v } { s with v := w } :=
  { h with v := hvw }

theorem set (h : Congruent r s) (x : Fin 16) (value : UInt8) :
    Congruent (r.set x value) (s.set x value) :=
  h.withV (by rw [h.v])

theorem setFlagged (h : Congruent r s) (x : Fin 16) (outcome : UInt8 × Bool) :
    Congruent (r.setFlagged x outcome) (s.setFlagged x outcome) :=
  (h.set ..).set ..

theorem advance (h : Congruent r s) : Congruent r.advance s.advance :=
  { h with pc := h.pc.add 2 }

theorem skipIf (h : Congruent r s) (condition : Bool) :
    Congruent (r.skipIf condition) (s.skipIf condition) := by
  cases condition with
  | false => exact h
  | true => exact h.advance

theorem jump (h : Congruent r s) {a b : UInt16} (hab : SameCell a b) :
    Congruent (r.jump a) (s.jump b) :=
  { h with pc := hab }

theorem setIndex (h : Congruent r s) {a b : UInt16} (hab : SameCell a b) :
    Congruent { r with i := a } { s with i := b } :=
  { h with i := hab }

/-- The addresses that a call stores lie in the same cell, although they may be
different numbers. -/
theorem call (h : Congruent r s) (target : UInt16) :
    Congruent (r.call target) (s.call target) where
  v := h.v
  i := h.i
  pc := .refl target
  stack := .cons h.pc h.stack

theorem ret (h : Congruent r s) : Congruent r.ret s.ret := by
  have hstack := h.stack
  cases hr : r.stack with
  | nil =>
    have hs : s.stack = [] := by
      rw [hr] at hstack
      exact List.forall₂_nil_left_iff.mp hstack
    rw [ret_of_stack_nil hr, ret_of_stack_nil hs]
    exact h
  | cons address rest =>
    rw [hr] at hstack
    obtain ⟨address', rest', hfirst, hrest, hs⟩ := List.forall₂_cons_left_iff.mp hstack
    rw [ret_of_stack_cons hr, ret_of_stack_cons hs]
    exact ⟨h.v, h.i, hfirst, hrest⟩

end Registers.Congruent

namespace Machine

/-- Equal up to the multiples of the size of memory in the addresses that the registers hold. -/
structure Congruent (m n : Machine) : Prop where
  config : m.config = n.config
  random : m.random = n.random
  memory : m.memory = n.memory
  registers : m.registers.Congruent n.registers
  timers : m.timers = n.timers
  frame : m.frame = n.frame
  keypad : m.keypad = n.keypad

namespace Congruent

variable {m n : Machine}

theorem refl (m : Machine) : Congruent m m :=
  ⟨rfl, rfl, rfl, ⟨rfl, .refl _, .refl _, List.forall₂_same.mpr fun a _ => .refl a⟩,
    rfl, rfl, rfl⟩

theorem reg (h : Congruent m n) (x : Fin 16) : m.reg x = n.reg x := h.registers.get x

theorem mapRegisters (h : Congruent m n) {f g : Registers → Registers}
    (hfg : (f m.registers).Congruent (g n.registers)) :
    Congruent (m.mapRegisters f) (n.mapRegisters g) :=
  { h with registers := hfg }

theorem setReg (h : Congruent m n) (x : Fin 16) {a b : UInt8} (hab : a = b) :
    Congruent (m.setReg x a) (n.setReg x b) := by
  subst hab
  exact h.mapRegisters (h.registers.set x a)

theorem setFlagged (h : Congruent m n) (x : Fin 16) {a b : UInt8 × Bool} (hab : a = b) :
    Congruent (m.setFlagged x a) (n.setFlagged x b) := by
  subst hab
  exact h.mapRegisters (h.registers.setFlagged x a)

theorem skipIf (h : Congruent m n) {a b : Bool} (hab : a = b) :
    Congruent (m.skipIf a) (n.skipIf b) := by
  subst hab
  exact h.mapRegisters (h.registers.skipIf a)

theorem jump (h : Congruent m n) {a b : UInt16} (hab : SameCell a b) :
    Congruent (m.jump a) (n.jump b) :=
  h.mapRegisters (h.registers.jump hab)

theorem call (h : Congruent m n) (address : UInt16) :
    Congruent (m.mapRegisters (·.call address)) (n.mapRegisters (·.call address)) :=
  h.mapRegisters (h.registers.call address)

theorem setIndex (h : Congruent m n) {a b : UInt16} (hab : SameCell a b) :
    Congruent (m.setIndex a) (n.setIndex b) :=
  h.mapRegisters (h.registers.setIndex hab)

theorem store (h : Congruent m n) {a b : List UInt8} (hab : a = b) :
    Congruent (m.store a) (n.store b) := by
  subst hab
  refine { h with memory := ?_ }
  change m.memory.store m.registers.i a = n.memory.store n.registers.i a
  rw [h.memory, n.memory.store_congr h.registers.i]

theorem loadRegisters (h : Congruent m n) (x : Fin 16) :
    Congruent (m.loadRegisters x) (n.loadRegisters x) := by
  refine h.mapRegisters (h.registers.withV ?_)
  congr 1
  funext k
  rw [h.memory, h.registers.get k, n.memory.read_congr (h.registers.i.add (UInt16.ofNat k.val))]

theorem randomize (h : Congruent m n) (x : Fin 16) (mask : UInt8) :
    Congruent (m.randomize x mask) (n.randomize x mask) := by
  refine { h with random := ?_, registers := ?_ }
  · exact congrArg RandomBytes.skipOne h.random
  · change (m.registers.set x (m.random.next &&& mask)).Congruent
      (n.registers.set x (n.random.next &&& mask))
    rw [h.random]
    exact h.registers.set ..

theorem draw (h : Congruent m n) (x y height : Fin 16) :
    Congruent (m.draw x y height) (n.draw x y height) := by
  have hdraw : m.frame.draw (m.reg x).toNat (m.reg y).toNat
        (m.memory.readSpan m.registers.i height.val) =
      n.frame.draw (n.reg x).toNat (n.reg y).toNat
        (n.memory.readSpan n.registers.i height.val) := by
    rw [h.frame, h.reg x, h.reg y, h.memory, n.memory.readSpan_congr h.registers.i]
  rw [Machine.draw, Machine.draw, hdraw]
  exact { h with frame := rfl, registers := h.registers.set .. }

/-- Every instruction reaches memory through cells, and moves an address by the same offset in
both machines. -/
theorem execute (h : Congruent m n) (i : Instruction) :
    Congruent (m.execute i) (n.execute i) := by
  have hreg := h.reg
  cases i with
  | clear => exact { h with frame := congrArg Frame.clear h.frame }
  | ret => exact h.mapRegisters h.registers.ret
  | jump nnn => exact h.jump (.refl _)
  | call nnn => exact h.call (target nnn)
  | skipEqual x nn => exact h.skipIf (by rw [hreg])
  | skipNotEqual x nn => exact h.skipIf (by rw [hreg])
  | skipRegistersEqual x y => exact h.skipIf (by rw [hreg, hreg])
  | load x nn => exact h.setReg x rfl
  | add x nn => exact h.setReg x (by rw [hreg])
  | move x y => exact h.setReg x (hreg y)
  | or x y => exact h.setReg x (by rw [hreg, hreg])
  | and x y => exact h.setReg x (by rw [hreg, hreg])
  | xor x y => exact h.setReg x (by rw [hreg, hreg])
  | addRegisters x y => exact h.setFlagged x (by rw [hreg, hreg])
  | sub x y => exact h.setFlagged x (by rw [hreg, hreg])
  | shiftRight x => exact h.setFlagged x (by rw [hreg])
  | subFrom x y => exact h.setFlagged x (by rw [hreg, hreg])
  | shiftLeft x => exact h.setFlagged x (by rw [hreg])
  | skipRegistersNotEqual x y => exact h.skipIf (by rw [hreg, hreg])
  | loadIndex nnn => exact h.setIndex (.refl _)
  | jumpOffset nnn => exact h.jump (by rw [hreg]; exact .refl _)
  | random x nn => exact h.randomize x nn
  | draw x y height => exact h.draw x y height
  | skipPressed x => exact h.skipIf (by rw [isPressed, isPressed, h.keypad, hreg])
  | skipNotPressed x => exact h.skipIf (by rw [isPressed, isPressed, h.keypad, hreg])
  | loadDelay x => exact h.setReg x (by rw [h.timers])
  | awaitKey x => exact { h with keypad := congrArg (Keypad.await · x) h.keypad }
  | setDelay x => exact { h with timers := by simp only [Machine.execute, h.timers, hreg] }
  | setSound x => exact { h with timers := by simp only [Machine.execute, h.timers, hreg] }
  | addIndex x => exact h.setIndex (by rw [hreg]; exact h.registers.i.add _)
  | loadGlyph x => exact h.setIndex (by rw [hreg]; exact .refl _)
  | storeDecimal x => exact h.store (by rw [hreg])
  | storeRegisters x => exact h.store (by rw [h.registers.v])
  | loadRegisters x => exact h.loadRegisters x
  | unknown word => exact h

theorem nextInstruction (h : Congruent m n) : m.nextInstruction = n.nextInstruction := by
  rw [Machine.nextInstruction, Machine.nextInstruction, nextWord, nextWord, h.memory,
    n.memory.readWord_congr h.registers.pc]

theorem advance (h : Congruent m n) : Congruent m.advance n.advance := by
  have hmoved : Congruent (m.mapRegisters Registers.advance) (n.mapRegisters Registers.advance) :=
    h.mapRegisters h.registers.advance
  rw [Machine.advance, Machine.advance, h.nextInstruction]
  exact hmoved.execute _

theorem isAwaiting (h : Congruent m n) : m.isAwaiting = n.isAwaiting := by
  rw [Machine.isAwaiting, Machine.isAwaiting, h.keypad]

theorem cycle (h : Congruent m n) (budget : Nat) :
    Congruent (m.cycle budget).2 (n.cycle budget).2 := by
  induction budget generalizing m n with
  | zero => exact h
  | succ budget ih =>
    cases hrun : m.isAwaiting with
    | true =>
      rw [cycle_of_awaiting hrun, cycle_of_awaiting (h.isAwaiting ▸ hrun)]
      exact h
    | false =>
      rw [cycle_succ_of_running hrun, cycle_succ_of_running (h.isAwaiting ▸ hrun)]
      exact ih h.advance

theorem advanceTimers (h : Congruent m n) : Congruent m.advanceTimers.2 n.advanceTimers.2 :=
  { h with timers := congrArg Timers.advance h.timers }

theorem takeFrame (h : Congruent m n) :
    m.takeFrame.1 = n.takeFrame.1 ∧ Congruent m.takeFrame.2 n.takeFrame.2 := by
  rw [Machine.takeFrame, Machine.takeFrame, h.frame]
  split
  · exact ⟨rfl, { h with frame := rfl }⟩
  · exact ⟨rfl, h⟩

/-- A fresh start leaves no difference at all. -/
theorem reset (h : Congruent m n) : m.reset = n.reset := by
  rw [Machine.reset, Machine.reset, h.config, h.random]

theorem load (h : Congruent m n) (program : List UInt8) : m.load program = n.load program := by
  rw [Machine.load, Machine.load, h.reset]

theorem setKey (h : Congruent m n) (key : UInt8) (pressed : Bool) :
    (∃ rejection, m.setKey key pressed = .error rejection ∧
        n.setKey key pressed = .error rejection) ∨
      ∃ m' n', m.setKey key pressed = .ok m' ∧ n.setKey key pressed = .ok n' ∧
        Congruent m' n' := by
  rw [Machine.setKey, Machine.setKey, h.keypad]
  cases n.keypad.setKey key pressed with
  | error rejection => exact .inl ⟨rejection, rfl, rfl⟩
  | ok keypad =>
    cases n.keypad.awaited pressed with
    | none => exact .inr ⟨_, _, rfl, rfl, { h with keypad := rfl }⟩
    | some x =>
      have hset := h.registers.set x key
      exact .inr ⟨_, _, rfl, rfl, { h with registers := hset, keypad := rfl }⟩

end Congruent

inductive Answer
  | stepped (address : Option UInt16)
  | ticked (tick : Tick)
  | timers (beep : Bool)
  | frame (frame : Option Frame)
  | request (refusal : Option Rejection)

def answer (m : Machine) : Event → Answer
  | .step => .stepped (m.step.map Prod.fst)
  | .tick budget => .ticked (m.tick budget).1
  | .advanceTimers => .timers m.advanceTimers.1
  | .takeFrame => .frame m.takeFrame.1
  | .setKey key pressed => .request (Rejection.ofResult (m.setKey key pressed))
  | .load program => .request (Rejection.ofResult (m.load program))
  | .reset => .request none

def answers (m : Machine) : List Event → List Answer
  | [] => []
  | event :: rest => m.answer event :: (m.respond event).answers rest

/-- Equal but for the multiple of the size of memory in an executed address, and for the listed
places of a tick, which tell such addresses apart. -/
inductive Answer.Congruent : Answer → Answer → Prop
  | waiting : Congruent (.stepped none) (.stepped none)
  | stepped {a b : UInt16} (h : SameCell a b) : Congruent (.stepped (some a)) (.stepped (some b))
  | ticked {s t : Tick} (h : s.beep = t.beep) : Congruent (.ticked s) (.ticked t)
  | timers (beep : Bool) : Congruent (.timers beep) (.timers beep)
  | frame (frame : Option Frame) : Congruent (.frame frame) (.frame frame)
  | request (refusal : Option Rejection) : Congruent (.request refusal) (.request refusal)

namespace Congruent

variable {m n : Machine}

theorem respond (h : Congruent m n) (event : Event) :
    Congruent (m.respond event) (n.respond event) ∧
      (m.answer event).Congruent (n.answer event) := by
  cases event with
  | step =>
    cases hrun : m.isAwaiting with
    | true =>
      have hrun' : n.isAwaiting = true := h.isAwaiting ▸ hrun
      rw [respond_step_of_awaiting hrun, respond_step_of_awaiting hrun', answer, answer,
        (step_eq_none_iff m).mpr hrun, (step_eq_none_iff n).mpr hrun']
      exact ⟨h, .waiting⟩
    | false =>
      have hrun' : n.isAwaiting = false := h.isAwaiting ▸ hrun
      rw [respond_step_of_running hrun, respond_step_of_running hrun', answer, answer,
        step_of_running hrun, step_of_running hrun']
      exact ⟨h.advance, .stepped h.registers.pc⟩
  | tick budget =>
    have hcycle := h.cycle budget
    have hbeep : (m.tick budget).1.beep = (n.tick budget).1.beep :=
      congrArg Timers.soundEnds hcycle.timers
    exact ⟨hcycle.advanceTimers, .ticked hbeep⟩
  | advanceTimers =>
    have hbeep : m.advanceTimers.1 = n.advanceTimers.1 := congrArg Timers.soundEnds h.timers
    rw [answer, answer, hbeep]
    exact ⟨h.advanceTimers, .timers _⟩
  | takeFrame =>
    obtain ⟨hframe, hnext⟩ := h.takeFrame
    rw [answer, answer, hframe]
    exact ⟨hnext, .frame _⟩
  | setKey key pressed =>
    rw [Machine.respond, Machine.respond, answer, answer]
    rcases h.setKey key pressed with ⟨rejection, hm, hn⟩ | ⟨m', n', hm, hn, hnext⟩
    · rw [hm, hn]
      exact ⟨h, .request _⟩
    · rw [hm, hn]
      exact ⟨hnext, .request _⟩
  | load program =>
    rw [Machine.respond, Machine.respond, answer, answer, h.load program]
    cases n.load program with
    | error rejection => exact ⟨h, .request _⟩
    | ok loaded => exact ⟨refl loaded, .request _⟩
  | reset =>
    rw [Machine.respond, Machine.respond, answer, answer, h.reset]
    exact ⟨refl _, .request _⟩

end Congruent

/-- Machines that are equal up to multiples of the size of memory in their addresses stay so
through any events, and answer alike up to such multiples in the executed addresses. -/
theorem addresses_count_modulo_memory {m n : Machine} (h : Congruent m n) (events : List Event) :
    Congruent (m.respondAll events) (n.respondAll events) ∧
      List.Forall₂ Answer.Congruent (m.answers events) (n.answers events) := by
  induction events generalizing m n with
  | nil => exact ⟨h, .nil⟩
  | cons event rest ih =>
    obtain ⟨hnext, hanswer⟩ := h.respond event
    obtain ⟨hlast, hrest⟩ := ih hnext
    exact ⟨hlast, .cons hanswer hrest⟩

/-- A subroutine that stores two registers, entered and left one turn around memory higher up. -/
theorem addresses_count_modulo_memory_in_subroutine :
    let start := (boot .standard (.ofSeed 7)).loaded
      [0x22, 0x04, 0x12, 0x02, 0xF1, 0x55, 0x00, 0xEE]
    let m := start.mapRegisters fun r => { r with i := 0x400, stack := [0x202] }
    let n := start.mapRegisters fun r => { r with i := 0xF400, pc := 0x1200, stack := [0x5202] }
    let events := [.step, .step, .setKey 5 true, .step, .advanceTimers]
    Congruent m n ∧ Congruent (m.respondAll events) (n.respondAll events) ∧
      (m.respondAll events).registers.pc = 0x202 ∧
      (n.respondAll events).registers.pc = 0x1202 := by
  intro start m n events
  have h : Congruent m n := by
    refine ⟨rfl, rfl, rfl, ⟨rfl, ?_, ?_, .cons ?_ .nil⟩, rfl, rfl, rfl⟩
    all_goals
      rw [Memory.sameCell_iff]
      decide
  exact ⟨h, (addresses_count_modulo_memory h events).1, by decide +kernel, by decide +kernel⟩

end Machine
end ChipEight
