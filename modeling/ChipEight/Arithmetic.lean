/-!
Byte arithmetic with its flag: the result modulo 256, and the carry, the absence of a borrow, or
the bit that is shifted out.
-/
namespace ChipEight.Arithmetic

def add (a b : UInt8) : UInt8 × Bool := (a + b, decide (256 ≤ a.toNat + b.toNat))

def sub (a b : UInt8) : UInt8 × Bool := (a - b, decide (b ≤ a))

def shiftRight (a : UInt8) : UInt8 × Bool := (a >>> 1, a.toNat.testBit 0)

def shiftLeft (a : UInt8) : UInt8 × Bool := (a <<< 1, a.toNat.testBit 7)

def decimal (a : UInt8) : List UInt8 := [a / 100, a / 10 % 10, a % 10]

end ChipEight.Arithmetic
