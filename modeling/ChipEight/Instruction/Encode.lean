import ChipEight.Instruction
import ChipEight.Word

/-!
The opcode table: the word of each instruction, its bit pattern filled with the operands. The
unused digit of a shift is zero.
-/
namespace ChipEight.Instruction

def wordNNN (head : Nat) (target : Fin 4096) : UInt16 := UInt16.ofNat (head * 4096 + target.val)

def wordXNN (head : Nat) (x : Fin 16) (nn : UInt8) : UInt16 :=
  UInt16.ofNat (head * 4096 + x.val * 256 + nn.toNat)

def wordXYN (head x y n : Nat) : UInt16 :=
  UInt16.ofNat (head * 4096 + x * 256 + y * 16 + n)

def encode : Instruction → UInt16
  | clear => 0x00E0
  | ret => 0x00EE
  | jump target => wordNNN 0x1 target
  | call target => wordNNN 0x2 target
  | skipEqual x nn => wordXNN 0x3 x nn
  | skipNotEqual x nn => wordXNN 0x4 x nn
  | skipRegistersEqual x y => wordXYN 0x5 x y 0
  | load x nn => wordXNN 0x6 x nn
  | add x nn => wordXNN 0x7 x nn
  | move x y => wordXYN 0x8 x y 0x0
  | or x y => wordXYN 0x8 x y 0x1
  | and x y => wordXYN 0x8 x y 0x2
  | xor x y => wordXYN 0x8 x y 0x3
  | addRegisters x y => wordXYN 0x8 x y 0x4
  | sub x y => wordXYN 0x8 x y 0x5
  | shiftRight x => wordXYN 0x8 x 0 0x6
  | subFrom x y => wordXYN 0x8 x y 0x7
  | shiftLeft x => wordXYN 0x8 x 0 0xE
  | skipRegistersNotEqual x y => wordXYN 0x9 x y 0
  | loadIndex target => wordNNN 0xA target
  | jumpOffset target => wordNNN 0xB target
  | random x nn => wordXNN 0xC x nn
  | draw x y n => wordXYN 0xD x y n
  | skipPressed x => wordXNN 0xE x 0x9E
  | skipNotPressed x => wordXNN 0xE x 0xA1
  | loadDelay x => wordXNN 0xF x 0x07
  | awaitKey x => wordXNN 0xF x 0x0A
  | setDelay x => wordXNN 0xF x 0x15
  | setSound x => wordXNN 0xF x 0x18
  | addIndex x => wordXNN 0xF x 0x1E
  | loadGlyph x => wordXNN 0xF x 0x29
  | storeDecimal x => wordXNN 0xF x 0x33
  | storeRegisters x => wordXNN 0xF x 0x55
  | loadRegisters x => wordXNN 0xF x 0x65
  | unknown word => word

def assemble (program : List Instruction) : List UInt8 :=
  program.flatMap fun instruction =>
    [Word.high instruction.encode, Word.low instruction.encode]

/-- A word consists of its digits. -/
theorem wordXYN_digits (word : UInt16) :
    wordXYN (family word) (operandX word).val (operandY word).val (operandN word).val = word := by
  have hw := word.toNat_lt
  apply UInt16.toNat_inj.mp
  simp only [wordXYN, family, operandX, operandY, operandN, Fin.ofNat, UInt16.toNat_ofNat']
  omega

theorem wordNNN_operandNNN (head : Nat) (word : UInt16) :
    wordNNN head (operandNNN word) =
      wordXYN head (operandX word).val (operandY word).val (operandN word).val := by
  have hsum : (operandNNN word).val =
      (operandX word).val * 256 + (operandY word).val * 16 + (operandN word).val := by
    simp only [operandNNN, operandX, operandY, operandN, Fin.ofNat]
    omega
  rw [wordNNN, wordXYN, hsum, Nat.add_assoc, Nat.add_assoc, Nat.add_assoc]

theorem wordXNN_operandNN (head : Nat) (x : Fin 16) (word : UInt16) :
    wordXNN head x (operandNN word) =
      wordXYN head x.val (operandY word).val (operandN word).val := by
  have hsum : (operandNN word).toNat = (operandY word).val * 16 + (operandN word).val := by
    simp only [operandNN, operandY, operandN, Fin.ofNat, UInt8.toNat_ofNat']
    omega
  rw [wordXNN, wordXYN, hsum, Nat.add_assoc, Nat.add_assoc, Nat.add_assoc]

section Operands

variable {head : Nat}

theorem operandNNN_wordNNN (head : Nat) (target : Fin 4096) :
    operandNNN (wordNNN head target) = target := by
  have ht := target.isLt
  apply Fin.ext
  simp only [operandNNN, wordNNN, Fin.ofNat, UInt16.toNat_ofNat']
  omega

theorem operandX_wordXNN (head : Nat) (x : Fin 16) (nn : UInt8) :
    operandX (wordXNN head x nn) = x := by
  have hx := x.isLt
  have hnn := nn.toNat_lt
  apply Fin.ext
  simp only [operandX, wordXNN, Fin.ofNat, UInt16.toNat_ofNat']
  omega

theorem operandNN_wordXNN (head : Nat) (x : Fin 16) (nn : UInt8) :
    operandNN (wordXNN head x nn) = nn := by
  have hnn := nn.toNat_lt
  apply UInt8.toNat_inj.mp
  simp only [operandNN, wordXNN, UInt8.toNat_ofNat', UInt16.toNat_ofNat']
  omega

theorem operandX_wordXYN (head : Nat) (x : Fin 16) {y n : Nat} (hy : y < 16) (hn : n < 16) :
    operandX (wordXYN head x.val y n) = x := by
  have hx := x.isLt
  apply Fin.ext
  simp only [operandX, wordXYN, Fin.ofNat, UInt16.toNat_ofNat']
  omega

theorem operandY_wordXYN (head x : Nat) (y : Fin 16) {n : Nat} (hn : n < 16) :
    operandY (wordXYN head x y.val n) = y := by
  have hy := y.isLt
  apply Fin.ext
  simp only [operandY, wordXYN, Fin.ofNat, UInt16.toNat_ofNat']
  omega

theorem mod_wordXYN (head x y n : Nat) : (wordXYN head x y n).toNat % 16 = n % 16 := by
  simp only [wordXYN, UInt16.toNat_ofNat']
  omega

theorem mod_wordXNN (head : Nat) (x : Fin 16) (nn : UInt8) :
    (wordXNN head x nn).toNat % 256 = nn.toNat := by
  have hnn := nn.toNat_lt
  simp only [wordXNN, UInt16.toNat_ofNat']
  omega

theorem operandN_wordXYN_ofNat (head x y n : Nat) :
    operandN (wordXYN head x y n) = Fin.ofNat 16 n :=
  Fin.ext (mod_wordXYN head x y n)

theorem operandN_wordXYN (head x y : Nat) (n : Fin 16) :
    operandN (wordXYN head x y n.val) = n :=
  (operandN_wordXYN_ofNat head x y n.val).trans (Fin.ofNat_val_eq_self n)

theorem family_wordNNN (hhead : head < 16) (target : Fin 4096) :
    family (wordNNN head target) = head := by
  have ht := target.isLt
  simp only [family, wordNNN, UInt16.toNat_ofNat']
  omega

theorem family_wordXNN (hhead : head < 16) (x : Fin 16) (nn : UInt8) :
    family (wordXNN head x nn) = head := by
  have hx := x.isLt
  have hnn := nn.toNat_lt
  simp only [family, wordXNN, UInt16.toNat_ofNat']
  omega

theorem family_wordXYN (hhead : head < 16) (x : Fin 16) {y n : Nat} (hy : y < 16)
    (hn : n < 16) : family (wordXYN head x.val y n) = head := by
  have hx := x.isLt
  simp only [family, wordXYN, UInt16.toNat_ofNat']
  omega

end Operands

end ChipEight.Instruction
