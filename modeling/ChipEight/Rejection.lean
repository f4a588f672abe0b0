import ChipEight.Layout
import ChipEight.Text.Hex

/-!
The reasons for which the machine and its console refuse a request, and the sentence that
reports each of them.
-/
namespace ChipEight

inductive Rejection
  | programTooLarge (size : Nat)
  | emptyProgram
  | unreadable (cause : String)
  | cyclesOutOfRange (requested : Nat)
  | emptyDisplay (width height : Nat)
  | keyOutOfRange (key : UInt8)
deriving DecidableEq, Repr

namespace Rejection

def message : Rejection → String
  | programTooLarge size =>
    s!"program is {size} bytes but at most {Layout.maxProgramSize} fit in memory"
  | emptyProgram => "program is empty"
  | unreadable cause => s!"unable to read program: {cause}"
  | cyclesOutOfRange requested =>
    s!"{requested} cycles per tick is outside of {Layout.minCycles}..={Layout.maxCycles}"
  | emptyDisplay width height => s!"a {width}x{height} display has no pixels"
  | keyOutOfRange key => "key 0x" ++ Text.Hex.upper 1 key.toNat ++ " is not on the keypad"

end Rejection
end ChipEight
