/-!
The fixed sizes of the machine, the place where programs begin, and the sprites of the sixteen
hexadecimal digits that every fresh memory holds at its start.
-/
namespace ChipEight.Layout

def memorySize : Nat := 4096

def programStart : UInt16 := 0x200

def maxProgramSize : Nat := memorySize - programStart.toNat

def displayWidth : Nat := 64

def displayHeight : Nat := 32

/-- A sprite row is one byte. -/
def spriteWidth : Nat := 8

def minCycles : Nat := 1

def defaultCycles : Nat := 10

def maxCycles : Nat := 30

/-- The register that receives carry, borrow and collision. -/
def flagRegister : Fin 16 := Fin.last 0xF

/-- The register that is added to the target of a jump. -/
def offsetRegister : Fin 16 := ⟨0, by decide⟩

def glyphHeight : Nat := 5

/-- The digits 0 to F, five rows each. -/
def spriteSheet : List UInt8 := [
  0xF0, 0x90, 0x90, 0x90, 0xF0,
  0x20, 0x60, 0x20, 0x20, 0x70,
  0xF0, 0x10, 0xF0, 0x80, 0xF0,
  0xF0, 0x10, 0xF0, 0x10, 0xF0,
  0x90, 0x90, 0xF0, 0x10, 0x10,
  0xF0, 0x80, 0xF0, 0x10, 0xF0,
  0xF0, 0x80, 0xF0, 0x90, 0xF0,
  0xF0, 0x10, 0x20, 0x40, 0x40,
  0xF0, 0x90, 0xF0, 0x90, 0xF0,
  0xF0, 0x90, 0xF0, 0x10, 0xF0,
  0xF0, 0x90, 0xF0, 0x90, 0x90,
  0xE0, 0x90, 0xE0, 0x90, 0xE0,
  0xF0, 0x80, 0x80, 0x80, 0xF0,
  0xE0, 0x90, 0x90, 0x90, 0xE0,
  0xF0, 0x80, 0xF0, 0x80, 0xF0,
  0xF0, 0x80, 0xF0, 0x80, 0x80]

end ChipEight.Layout
