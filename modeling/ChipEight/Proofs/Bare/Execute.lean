import ChipEight.Machine.Execute
import ChipEight.Proofs.Bare.Frame
import ChipEight.Proofs.Bare.Memory

/-!
Executing an instruction on plain data. Registers, memory, pressed keys and pixels are arrays, the
operands are fields of the instruction's word, and the register that awaits a key is a number;
each instruction indexes and computes as it comes. On the plain data of a machine whose frame can
be allocated no instruction breaks down, and each does what it does on the machine.
-/
namespace ChipEight

namespace Bare

def fieldX (word : UInt16) : Nat := ((word &&& 0x0F00) >>> 8).toNat

def fieldY (word : UInt16) : Nat := ((word &&& 0x00F0) >>> 4).toNat

def fieldN (word : UInt16) : Nat := (word &&& 0x000F).toNat

def fieldNN (word : UInt16) : UInt8 := (word &&& 0x00FF).toUInt8

def fieldNNN (word : UInt16) : UInt16 := word &&& 0x0FFF

inductive Execution
  | running
  | awaitingKey (register : Nat)
deriving DecidableEq, Repr

structure Keypad where
  pressed : Array Bool
  execution : Execution

structure Machine where
  config : Config
  random : RandomBytes
  memory : Array UInt8
  registers : Registers
  timers : Timers
  frame : Frame
  keypad : Keypad

namespace Machine

def reg (m : Machine) (x : Nat) : Guarded UInt8 := get m.registers.v x

def unary {α : Type} (m : Machine) (x : Nat) (f : UInt8 → α) : Guarded α := do
  let a ← m.reg x
  return f a

def binary {α : Type} (m : Machine) (x y : Nat) (f : UInt8 → UInt8 → α) : Guarded α := do
  let a ← m.reg x
  let b ← m.reg y
  return f a b

def skip (m : Machine) (test : Guarded Bool) : Guarded Machine := do
  let condition ← test
  return { m with registers := m.registers.skipIf condition }

def assign (m : Machine) (x : Nat) (result : Guarded UInt8) : Guarded Machine := do
  let value ← result
  let registers ← m.registers.set x value
  return { m with registers }

def assignFlagged (m : Machine) (x : Nat) (result : Guarded (UInt8 × Bool)) :
    Guarded Machine := do
  let outcome ← result
  let registers ← m.registers.setFlagged x outcome
  return { m with registers }

def point (m : Machine) (result : Guarded UInt16) : Guarded Machine := do
  let address ← result
  return { m with registers := { m.registers with i := address } }

def isPressed (m : Machine) (key : UInt8) : Bool := m.keypad.pressed[key.toNat]?.getD false

def draw (m : Machine) (x y n : Nat) : Guarded Machine := do
  let sprite ← Memory.readSpan m.memory m.registers.i n
  let left ← m.reg x
  let top ← m.reg y
  let (collision, frame) ← m.frame.draw left.toNat top.toNat sprite
  let registers ← m.registers.setFlag collision
  return { m with frame, registers }

/-- The product is one of sixteen bits. -/
def glyphAddress (digit : UInt8) : Guarded UInt16 := do
  let address ← fit 16 (digit.toNat * Layout.glyphHeight)
  return UInt16.ofNat address

def storeDecimal (m : Machine) (x : Nat) : Guarded Machine := do
  let value ← m.reg x
  let memory ← Memory.write m.memory m.registers.i (value / 100)
  let memory ← Memory.write memory (m.registers.i + 1) (value / 10 % 10)
  let memory ← Memory.write memory (m.registers.i + 2) (value % 10)
  return { m with memory }

def execute (m : Machine) (word : UInt16) : Guarded Machine :=
  let x := fieldX word
  let y := fieldY word
  let nn := fieldNN word
  let nnn := fieldNNN word
  let r := m.registers
  match Instruction.decode word with
  | .clear => return { m with frame := m.frame.clear }
  | .ret => return { m with registers := r.ret }
  | .jump _ => return { m with registers := { r with pc := nnn } }
  | .call _ => return { m with registers := { r with pc := nnn, stack := r.pc :: r.stack } }
  | .skipEqual .. => m.skip (m.unary x (· == nn))
  | .skipNotEqual .. => m.skip (m.unary x (· != nn))
  | .skipRegistersEqual .. => m.skip (m.binary x y (· == ·))
  | .load .. => m.assign x (.ok nn)
  | .add .. => m.assign x (m.unary x (· + nn))
  | .move .. => m.assign x (m.reg y)
  | .or .. => m.assign x (m.binary x y (· ||| ·))
  | .and .. => m.assign x (m.binary x y (· &&& ·))
  | .xor .. => m.assign x (m.binary x y (· ^^^ ·))
  | .addRegisters .. => m.assignFlagged x (m.binary x y Arithmetic.add)
  | .sub .. => m.assignFlagged x (m.binary x y Arithmetic.sub)
  | .shiftRight _ => m.assignFlagged x (m.unary x Arithmetic.shiftRight)
  | .subFrom .. => m.assignFlagged x (m.binary y x Arithmetic.sub)
  | .shiftLeft _ => m.assignFlagged x (m.unary x Arithmetic.shiftLeft)
  | .skipRegistersNotEqual .. => m.skip (m.binary x y (· != ·))
  | .loadIndex _ => m.point (.ok nnn)
  | .jumpOffset _ => do
    let offset ← m.reg 0
    return { m with registers := { r with pc := nnn + offset.toUInt16 } }
  | .random .. => do
    let registers ← r.set x (m.random.next &&& nn)
    return { m with registers, random := m.random.skipOne }
  | .draw .. => m.draw x y (fieldN word)
  | .skipPressed _ => m.skip (m.unary x m.isPressed)
  | .skipNotPressed _ => m.skip (m.unary x fun key => !m.isPressed key)
  | .loadDelay _ => m.assign x (.ok m.timers.delay)
  | .awaitKey _ => return { m with keypad := { m.keypad with execution := .awaitingKey x } }
  | .setDelay _ => do
    let delay ← m.reg x
    return { m with timers := { m.timers with delay } }
  | .setSound _ => do
    let sound ← m.reg x
    return { m with timers := { m.timers with sound } }
  | .addIndex _ => m.point (m.unary x fun offset => r.i + offset.toUInt16)
  | .loadGlyph _ => m.point (m.reg x >>= glyphAddress)
  | .storeDecimal _ => m.storeDecimal x
  | .storeRegisters _ => do
    let memory ← r.store m.memory x
    return { m with memory }
  | .loadRegisters _ => do
    let registers ← r.fill m.memory x
    return { m with registers }
  | .unknown _ => return m

end Machine
end Bare

namespace Instruction

open Bare

/-- A mask over four bits, shifted back, leaves one hexadecimal digit. -/
theorem and_shiftRight_eq_digit (n k : Nat) : (n &&& 0xF <<< k) >>> k = n / 2 ^ k % 16 := by
  rw [Nat.shiftRight_and_distrib, Nat.shiftLeft_shiftRight, Nat.shiftRight_eq_div_pow]
  exact Nat.and_two_pow_sub_one_eq_mod _ 4

theorem fieldX_eq (word : UInt16) : fieldX word = (operandX word).val := by
  rw [fieldX, UInt16.toNat_shiftRight, UInt16.toNat_and]
  exact and_shiftRight_eq_digit word.toNat 8

theorem fieldY_eq (word : UInt16) : fieldY word = (operandY word).val := by
  rw [fieldY, UInt16.toNat_shiftRight, UInt16.toNat_and]
  exact and_shiftRight_eq_digit word.toNat 4

theorem fieldN_eq (word : UInt16) : fieldN word = (operandN word).val :=
  Nat.and_two_pow_sub_one_eq_mod word.toNat 4

theorem fieldNN_eq (word : UInt16) : fieldNN word = operandNN word := by
  apply UInt8.toNat_inj.mp
  rw [fieldNN, operandNN, UInt16.toNat_toUInt8, UInt16.toNat_and, UInt8.toNat_ofNat']
  change (word.toNat &&& 2 ^ 8 - 1) % 2 ^ 8 = word.toNat % 2 ^ 8
  rw [Nat.and_two_pow_sub_one_eq_mod, Nat.mod_mod]

theorem fieldNNN_eq (word : UInt16) :
    fieldNNN word = ChipEight.Machine.target (operandNNN word) := by
  apply UInt16.toNat_inj.mp
  rw [fieldNNN, ChipEight.Machine.target, UInt16.toNat_and, UInt16.toNat_ofNat']
  change word.toNat &&& 2 ^ 12 - 1 = word.toNat % 4096 % 2 ^ 16
  rw [Nat.and_two_pow_sub_one_eq_mod]
  omega

/-- The operands of the instruction are those of the word. -/
def Carries (word : UInt16) : Instruction → Prop
  | .clear | .ret | .unknown _ => True
  | .jump nnn | .call nnn | .loadIndex nnn | .jumpOffset nnn => nnn = operandNNN word
  | .skipEqual x nn | .skipNotEqual x nn | .load x nn | .add x nn | .random x nn =>
    x = operandX word ∧ nn = operandNN word
  | .skipRegistersEqual x y | .skipRegistersNotEqual x y | .move x y | .or x y | .and x y
  | .xor x y | .addRegisters x y | .sub x y | .subFrom x y =>
    x = operandX word ∧ y = operandY word
  | .draw x y n => x = operandX word ∧ y = operandY word ∧ n = operandN word
  | .shiftRight x | .shiftLeft x | .skipPressed x | .skipNotPressed x | .loadDelay x
  | .awaitKey x | .setDelay x | .setSound x | .addIndex x | .loadGlyph x | .storeDecimal x
  | .storeRegisters x | .loadRegisters x => x = operandX word

theorem carries_ofArithmetic (word : UInt16) : (ofArithmetic word).Carries word := by
  unfold ofArithmetic
  dsimp only
  split <;> simp only [Carries, and_self]

theorem carries_ofMiscellany (word : UInt16) : (ofMiscellany word).Carries word := by
  unfold ofMiscellany
  dsimp only
  split <;> simp only [Carries]

theorem carries_decode (word : UInt16) : (decode word).Carries word := by
  unfold decode
  dsimp only
  split
  case h_9 => exact carries_ofArithmetic word
  case h_16 => exact carries_ofMiscellany word
  all_goals (repeat' split) <;> simp only [Carries, and_self]

end Instruction

namespace Keypad

def bareExecution : Execution → Bare.Execution
  | .running => .running
  | .awaitingKey x => .awaitingKey x.val

def bare (k : Keypad) : Bare.Keypad := ⟨k.pressed.toArray, bareExecution k.execution⟩

end Keypad

namespace Machine

open Bare

def bare (m : Machine) : Bare.Machine where
  config := m.config
  random := m.random
  memory := m.memory.bytes.toArray
  registers := m.registers.bare
  timers := m.timers
  frame := m.frame.bare
  keypad := m.keypad.bare

@[simp] theorem memory_bare (m : Machine) : m.bare.memory = m.memory.bytes.toArray := rfl

@[simp] theorem registers_bare (m : Machine) : m.bare.registers = m.registers.bare := rfl

@[simp] theorem frame_bare (m : Machine) : m.bare.frame = m.frame.bare := rfl

@[simp] theorem execution_bare (m : Machine) :
    m.bare.keypad.execution = Keypad.bareExecution m.keypad.execution := rfl

variable (m : Machine)

theorem reg_bare (x : Fin 16) : m.bare.reg x.val = .ok (m.reg x) := m.registers.get_bare x

theorem unary_bare {α : Type} (x : Fin 16) (f : UInt8 → α) :
    m.bare.unary x.val f = .ok (f (m.reg x)) := by
  rw [Bare.Machine.unary, reg_bare]
  rfl

theorem binary_bare {α : Type} (x y : Fin 16) (f : UInt8 → UInt8 → α) :
    m.bare.binary x.val y.val f = .ok (f (m.reg x) (m.reg y)) := by
  rw [Bare.Machine.binary, reg_bare, ok_bind, reg_bare]
  rfl

theorem skip_bare (condition : Bool) :
    m.bare.skip (.ok condition) = .ok (m.skipIf condition).bare := by
  cases condition <;> rfl

theorem assign_bare (x : Fin 16) (value : UInt8) :
    m.bare.assign x.val (.ok value) = .ok (m.setReg x value).bare := by
  rw [Bare.Machine.assign, ok_bind, registers_bare, Registers.set_bare]
  rfl

theorem assignFlagged_bare (x : Fin 16) (outcome : UInt8 × Bool) :
    m.bare.assignFlagged x.val (.ok outcome) = .ok (m.setFlagged x outcome).bare := by
  rw [Bare.Machine.assignFlagged, ok_bind, registers_bare, Registers.setFlagged_bare]
  rfl

theorem point_bare (address : UInt16) :
    m.bare.point (.ok address) = .ok (m.setIndex address).bare := rfl

theorem isPressed_bare (key : UInt8) : m.bare.isPressed key = m.isPressed key := by
  rw [Bare.Machine.isPressed, isPressed, Keypad.isPressed, ← Vector.getElem?_toArray]
  rfl

theorem glyphAddress_eq (digit : UInt8) :
    Bare.Machine.glyphAddress digit =
      .ok (digit.toUInt16 * UInt16.ofNat Layout.glyphHeight) := by
  have hdigit := digit.toNat_lt
  have hfit : digit.toNat * Layout.glyphHeight < 2 ^ 16 := by
    simp only [Layout.glyphHeight]
    omega
  rw [Bare.Machine.glyphAddress, fit_eq_ok hfit, ok_bind, UInt16.ofNat_mul,
    UInt16.ofNat_uInt8ToNat, pure_eq_ok]

theorem storeDecimal_bare (x : Fin 16) :
    m.bare.storeDecimal x.val = .ok (m.store (Arithmetic.decimal (m.reg x))).bare := by
  have htwo : m.registers.i + 1 + 1 = m.registers.i + 2 := UInt16.add_assoc ..
  rw [Bare.Machine.storeDecimal, reg_bare, ok_bind]
  simp only [bare, Registers.bare, Memory.write_bare, ok_bind, pure_eq_ok]
  simp only [store, Arithmetic.decimal, Memory.store, htwo]

theorem draw_bare {m : Machine} (h : m.frame.pixels.size ≤ maxAllocation) (x y n : Fin 16) :
    m.bare.draw x.val y.val n.val = .ok (m.draw x y n).bare := by
  have hcolumn : (m.reg x).toNat + 7 < 2 ^ wordBits := by
    have hx := (m.reg x).toNat_lt
    simp only [wordBits]
    omega
  have hsprite : (m.reg y).toNat + (m.memory.readSpan m.registers.i n.val).length ≤
      2 ^ wordBits := by
    have hy := (m.reg y).toNat_lt
    have hn := n.isLt
    rw [Memory.length_readSpan]
    simp only [wordBits]
    omega
  have hdraw := Frame.draw_bare h hcolumn hsprite
  rw [Bare.Machine.draw, memory_bare, registers_bare, Registers.i_bare, Memory.readSpan_bare,
    ok_bind, reg_bare, ok_bind, reg_bare, ok_bind, frame_bare, hdraw, ok_bind]
  dsimp only [Frame.bareDrawn]
  rw [Registers.setFlag_bare]
  rfl

/-- An instruction does on plain data what it does on the machine. -/
theorem execute_bare {m : Machine} (h : m.frame.pixels.size ≤ maxAllocation) (word : UInt16) :
    m.bare.execute word = .ok (m.execute (.decode word)).bare := by
  have hcarries := Instruction.carries_decode word
  unfold Bare.Machine.execute
  simp only [Instruction.fieldX_eq, Instruction.fieldY_eq, Instruction.fieldN_eq,
    Instruction.fieldNN_eq, Instruction.fieldNNN_eq, registers_bare, memory_bare, frame_bare]
  -- all that is used of the instruction is that it carries the operands of the word
  generalize Instruction.decode word = i at hcarries ⊢
  cases i <;> dsimp only
  case clear =>
    rw [Frame.clear_bare]
    rfl
  case ret =>
    rw [Registers.ret_bare]
    rfl
  case unknown => rfl
  case jump nnn | call nnn | loadIndex nnn =>
    obtain rfl := hcarries
    rfl
  case jumpOffset nnn =>
    obtain rfl := hcarries
    exact congrArg (· >>= _) (m.reg_bare 0)
  case skipEqual x nn | skipNotEqual x nn =>
    obtain ⟨rfl, rfl⟩ := hcarries
    rw [unary_bare, skip_bare]
    rfl
  case skipRegistersEqual x y | skipRegistersNotEqual x y =>
    obtain ⟨rfl, rfl⟩ := hcarries
    rw [binary_bare, skip_bare]
    rfl
  case skipPressed x | skipNotPressed x =>
    obtain rfl := hcarries
    rw [unary_bare, isPressed_bare, skip_bare]
    rfl
  case load x nn =>
    obtain ⟨rfl, rfl⟩ := hcarries
    exact m.assign_bare ..
  case add x nn =>
    obtain ⟨rfl, rfl⟩ := hcarries
    rw [unary_bare, assign_bare]
    rfl
  case move x y =>
    obtain ⟨rfl, rfl⟩ := hcarries
    rw [reg_bare, assign_bare]
    rfl
  case or x y | and x y | xor x y =>
    obtain ⟨rfl, rfl⟩ := hcarries
    rw [binary_bare, assign_bare]
    rfl
  case addRegisters x y | sub x y | subFrom x y =>
    obtain ⟨rfl, rfl⟩ := hcarries
    rw [binary_bare, assignFlagged_bare]
    rfl
  case shiftRight x | shiftLeft x =>
    obtain rfl := hcarries
    rw [unary_bare, assignFlagged_bare]
    rfl
  case random x nn =>
    obtain ⟨rfl, rfl⟩ := hcarries
    rw [Registers.set_bare]
    rfl
  case draw x y n =>
    obtain ⟨rfl, rfl, rfl⟩ := hcarries
    exact draw_bare h ..
  case loadDelay x =>
    obtain rfl := hcarries
    exact m.assign_bare ..
  case awaitKey x =>
    obtain rfl := hcarries
    rfl
  case setDelay x | setSound x =>
    obtain rfl := hcarries
    rw [reg_bare]
    rfl
  case addIndex x =>
    obtain rfl := hcarries
    rw [unary_bare]
    rfl
  case loadGlyph x =>
    obtain rfl := hcarries
    rw [reg_bare, ok_bind, glyphAddress_eq, point_bare]
    rfl
  case storeDecimal x =>
    obtain rfl := hcarries
    exact m.storeDecimal_bare _
  case storeRegisters x =>
    obtain rfl := hcarries
    rw [Registers.store_bare]
    rfl
  case loadRegisters x =>
    obtain rfl := hcarries
    rw [Registers.fill_bare]
    rfl

end Machine
end ChipEight
