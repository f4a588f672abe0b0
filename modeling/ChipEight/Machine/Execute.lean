import ChipEight.Arithmetic
import ChipEight.Instruction
import ChipEight.Machine

/-!
The effect of each instruction on the machine. The program counter already points past the
instruction when it is executed, so a jump replaces it and a skip moves it on once more.
-/
namespace ChipEight.Machine

def mapRegisters (m : Machine) (f : Registers → Registers) : Machine :=
  { m with registers := f m.registers }

def reg (m : Machine) (x : Fin 16) : UInt8 := m.registers.get x

def setReg (m : Machine) (x : Fin 16) (value : UInt8) : Machine :=
  m.mapRegisters (·.set x value)

def setFlagged (m : Machine) (x : Fin 16) (outcome : UInt8 × Bool) : Machine :=
  m.mapRegisters (·.setFlagged x outcome)

def skipIf (m : Machine) (condition : Bool) : Machine := m.mapRegisters (·.skipIf condition)

def jump (m : Machine) (address : UInt16) : Machine := m.mapRegisters (·.jump address)

def setIndex (m : Machine) (address : UInt16) : Machine :=
  m.mapRegisters fun r => { r with i := address }

def target (nnn : Fin 4096) : UInt16 := UInt16.ofNat nnn.val

def randomize (m : Machine) (x : Fin 16) (mask : UInt8) : Machine :=
  { m with random := m.random.skipOne, registers := m.registers.set x (m.random.next &&& mask) }

def draw (m : Machine) (x y n : Fin 16) : Machine :=
  let sprite := m.memory.readSpan m.registers.i n.val
  let (collision, frame) := m.frame.draw (m.reg x).toNat (m.reg y).toNat sprite
  { m with frame, registers := m.registers.setFlag collision }

def store (m : Machine) (bytes : List UInt8) : Machine :=
  { m with memory := m.memory.store m.registers.i bytes }

def loadRegisters (m : Machine) (x : Fin 16) : Machine :=
  m.mapRegisters fun r => { r with
    v := Vector.ofFn fun k =>
      if k ≤ x then m.memory.read (r.i + UInt16.ofNat k.val) else r.get k }

def execute (m : Machine) : Instruction → Machine
  | .clear => { m with frame := m.frame.clear }
  | .ret => m.mapRegisters Registers.ret
  | .jump nnn => m.jump (target nnn)
  | .call nnn => m.mapRegisters (·.call (target nnn))
  | .skipEqual x nn => m.skipIf (m.reg x == nn)
  | .skipNotEqual x nn => m.skipIf (m.reg x != nn)
  | .skipRegistersEqual x y => m.skipIf (m.reg x == m.reg y)
  | .load x nn => m.setReg x nn
  | .add x nn => m.setReg x (m.reg x + nn)
  | .move x y => m.setReg x (m.reg y)
  | .or x y => m.setReg x (m.reg x ||| m.reg y)
  | .and x y => m.setReg x (m.reg x &&& m.reg y)
  | .xor x y => m.setReg x (m.reg x ^^^ m.reg y)
  | .addRegisters x y => m.setFlagged x (Arithmetic.add (m.reg x) (m.reg y))
  | .sub x y => m.setFlagged x (Arithmetic.sub (m.reg x) (m.reg y))
  | .shiftRight x => m.setFlagged x (Arithmetic.shiftRight (m.reg x))
  | .subFrom x y => m.setFlagged x (Arithmetic.sub (m.reg y) (m.reg x))
  | .shiftLeft x => m.setFlagged x (Arithmetic.shiftLeft (m.reg x))
  | .skipRegistersNotEqual x y => m.skipIf (m.reg x != m.reg y)
  | .loadIndex nnn => m.setIndex (target nnn)
  | .jumpOffset nnn => m.jump (target nnn + (m.reg Layout.offsetRegister).toUInt16)
  | .random x nn => m.randomize x nn
  | .draw x y n => m.draw x y n
  | .skipPressed x => m.skipIf (m.isPressed (m.reg x))
  | .skipNotPressed x => m.skipIf (!m.isPressed (m.reg x))
  | .loadDelay x => m.setReg x m.timers.delay
  | .awaitKey x => { m with keypad := m.keypad.await x }
  | .setDelay x => { m with timers := { m.timers with delay := m.reg x } }
  | .setSound x => { m with timers := { m.timers with sound := m.reg x } }
  | .addIndex x => m.setIndex (m.registers.i + (m.reg x).toUInt16)
  | .loadGlyph x => m.setIndex ((m.reg x).toUInt16 * UInt16.ofNat Layout.glyphHeight)
  | .storeDecimal x => m.store (Arithmetic.decimal (m.reg x))
  | .storeRegisters x => m.store (m.registers.v.toList.take (x.val + 1))
  | .loadRegisters x => m.loadRegisters x
  | .unknown _ => m

end ChipEight.Machine
