import ChipEight.Instruction

/-!
The name of an instruction with its operands in decimal.
-/
namespace ChipEight.Instruction

def withFields (name : String) (fields : List (String × Nat)) : String :=
  let inner := ", ".intercalate (fields.map fun (label, value) => s!"{label}: {value}")
  name ++ " \x7b " ++ inner ++ " \x7d"

def withX (name : String) (x : Fin 16) : String := withFields name [("x", x.val)]

def withXY (name : String) (x y : Fin 16) : String :=
  withFields name [("x", x.val), ("y", y.val)]

def withXNN (name : String) (x : Fin 16) (nn : UInt8) : String :=
  withFields name [("x", x.val), ("nn", nn.toNat)]

def withWord (name : String) (word : Nat) : String := s!"{name}({word})"

def text : Instruction → String
  | clear => "Clear"
  | ret => "Return"
  | jump target => withWord "Jump" target.val
  | call target => withWord "Call" target.val
  | skipEqual x nn => withXNN "SkipEqual" x nn
  | skipNotEqual x nn => withXNN "SkipNotEqual" x nn
  | skipRegistersEqual x y => withXY "SkipRegistersEqual" x y
  | load x nn => withXNN "Load" x nn
  | add x nn => withXNN "Add" x nn
  | move x y => withXY "Move" x y
  | or x y => withXY "Or" x y
  | and x y => withXY "And" x y
  | xor x y => withXY "Xor" x y
  | addRegisters x y => withXY "AddRegisters" x y
  | sub x y => withXY "Sub" x y
  | shiftRight x => withX "ShiftRight" x
  | subFrom x y => withXY "SubN" x y
  | shiftLeft x => withX "ShiftLeft" x
  | skipRegistersNotEqual x y => withXY "SkipRegistersNotEqual" x y
  | loadIndex target => withWord "LoadIndex" target.val
  | jumpOffset target => withWord "JumpOffset" target.val
  | random x nn => withXNN "Random" x nn
  | draw x y n => withFields "Draw" [("x", x.val), ("y", y.val), ("n", n.val)]
  | skipPressed x => withX "SkipPressed" x
  | skipNotPressed x => withX "SkipNotPressed" x
  | loadDelay x => withX "LoadDelay" x
  | awaitKey x => withX "AwaitKey" x
  | setDelay x => withX "SetDelay" x
  | setSound x => withX "SetSound" x
  | addIndex x => withX "AddIndex" x
  | loadGlyph x => withX "LoadGlyph" x
  | storeDecimal x => withX "StoreBcd" x
  | storeRegisters x => withX "StoreRegisters" x
  | loadRegisters x => withX "LoadRegisters" x
  | unknown word => withWord "Unknown" word.toNat

end ChipEight.Instruction
