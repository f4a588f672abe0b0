/-!
The instructions of the machine and how a sixteen-bit word selects one. The operand types
hold only what fits into the word: register numbers and sprite heights are below sixteen,
addresses below 4096.
-/
namespace ChipEight

inductive Instruction
  | clear
  | ret
  | jump (target : Fin 4096)
  | call (target : Fin 4096)
  | skipEqual (x : Fin 16) (nn : UInt8)
  | skipNotEqual (x : Fin 16) (nn : UInt8)
  | skipRegistersEqual (x y : Fin 16)
  | load (x : Fin 16) (nn : UInt8)
  | add (x : Fin 16) (nn : UInt8)
  | move (x y : Fin 16)
  | or (x y : Fin 16)
  | and (x y : Fin 16)
  | xor (x y : Fin 16)
  | addRegisters (x y : Fin 16)
  | sub (x y : Fin 16)
  | shiftRight (x : Fin 16)
  | subFrom (x y : Fin 16)
  | shiftLeft (x : Fin 16)
  | skipRegistersNotEqual (x y : Fin 16)
  | loadIndex (target : Fin 4096)
  | jumpOffset (target : Fin 4096)
  | random (x : Fin 16) (nn : UInt8)
  | draw (x y n : Fin 16)
  | skipPressed (x : Fin 16)
  | skipNotPressed (x : Fin 16)
  | loadDelay (x : Fin 16)
  | awaitKey (x : Fin 16)
  | setDelay (x : Fin 16)
  | setSound (x : Fin 16)
  | addIndex (x : Fin 16)
  | loadGlyph (x : Fin 16)
  | storeDecimal (x : Fin 16)
  | storeRegisters (x : Fin 16)
  | loadRegisters (x : Fin 16)
  | unknown (word : UInt16)
deriving DecidableEq, Repr

namespace Instruction

/-- The leading hexadecimal digit of a word. -/
def family (word : UInt16) : Nat := word.toNat / 4096

def operandX (word : UInt16) : Fin 16 := Fin.ofNat 16 (word.toNat / 256)

def operandY (word : UInt16) : Fin 16 := Fin.ofNat 16 (word.toNat / 16)

def operandN (word : UInt16) : Fin 16 := Fin.ofNat 16 word.toNat

def operandNN (word : UInt16) : UInt8 := UInt8.ofNat word.toNat

def operandNNN (word : UInt16) : Fin 4096 := Fin.ofNat 4096 word.toNat

/-- Words `8xyn`, which the last digit tells apart. -/
def ofArithmetic (word : UInt16) : Instruction :=
  let x := operandX word
  let y := operandY word
  match word.toNat % 16 with
  | 0x0 => .move x y
  | 0x1 => .or x y
  | 0x2 => .and x y
  | 0x3 => .xor x y
  | 0x4 => .addRegisters x y
  | 0x5 => .sub x y
  | 0x6 => .shiftRight x
  | 0x7 => .subFrom x y
  | 0xE => .shiftLeft x
  | _ => .unknown word

/-- Words `Fxnn`, which the last two digits tell apart. -/
def ofMiscellany (word : UInt16) : Instruction :=
  let x := operandX word
  match word.toNat % 256 with
  | 0x07 => .loadDelay x
  | 0x0A => .awaitKey x
  | 0x15 => .setDelay x
  | 0x18 => .setSound x
  | 0x1E => .addIndex x
  | 0x29 => .loadGlyph x
  | 0x33 => .storeDecimal x
  | 0x55 => .storeRegisters x
  | 0x65 => .loadRegisters x
  | _ => .unknown word

def decode (word : UInt16) : Instruction :=
  let x := operandX word
  let y := operandY word
  match family word with
  | 0x0 => if word = 0x00E0 then .clear else if word = 0x00EE then .ret else .unknown word
  | 0x1 => .jump (operandNNN word)
  | 0x2 => .call (operandNNN word)
  | 0x3 => .skipEqual x (operandNN word)
  | 0x4 => .skipNotEqual x (operandNN word)
  | 0x5 => if operandN word = 0 then .skipRegistersEqual x y else .unknown word
  | 0x6 => .load x (operandNN word)
  | 0x7 => .add x (operandNN word)
  | 0x8 => ofArithmetic word
  | 0x9 => if operandN word = 0 then .skipRegistersNotEqual x y else .unknown word
  | 0xA => .loadIndex (operandNNN word)
  | 0xB => .jumpOffset (operandNNN word)
  | 0xC => .random x (operandNN word)
  | 0xD => .draw x y (operandN word)
  | 0xE =>
    if operandNN word = 0x9E then .skipPressed x
    else if operandNN word = 0xA1 then .skipNotPressed x
    else .unknown word
  | _ => ofMiscellany word

end Instruction
end ChipEight
