/-!
Hexadecimal text of natural numbers with a least number of digits.
-/
namespace ChipEight.Text.Hex

/-- At least `width` digits, most significant first; more only where the number needs them. -/
def digits : Nat → Nat → List Char
  | 0, n => if n = 0 then [] else Nat.toDigits 16 n
  | width + 1, n => digits width (n / 16) ++ [Nat.digitChar (n % 16)]

def lower (width n : Nat) : String := String.ofList (digits width n)

def upper (width n : Nat) : String := String.ofList ((digits width n).map Char.toUpper)

end ChipEight.Text.Hex
