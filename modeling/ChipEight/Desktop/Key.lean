/-!
The keys of the desktop keyboard. Sixteen of them, the block to the left, stand for the keypad;
six others drive the console.
-/
namespace ChipEight.Desktop

/-- A key by its name, and any key that has no meaning here. -/
inductive Key
  | num1 | num2 | num3 | num4
  | q | w | e | r
  | a | s | d | f
  | z | x | c | v
  | space | n | backspace | escape | equals | minus
  | other
deriving DecidableEq, Repr

inductive Command
  | togglePlay
  | step
  | replay
  | stop
  | faster
  | slower
deriving DecidableEq, Repr

namespace Key

def named : List (String × Key) := [
  ("Num1", num1), ("Num2", num2), ("Num3", num3), ("Num4", num4),
  ("Q", q), ("W", w), ("E", e), ("R", r),
  ("A", a), ("S", s), ("D", d), ("F", f),
  ("Z", z), ("X", x), ("C", c), ("V", v),
  ("Space", space), ("N", n), ("Backspace", backspace), ("Escape", escape),
  ("Equals", equals), ("Minus", minus)]

def ofName (name : String) : Key := (named.lookup name).getD other

/-- The keypad code under a key: the rows `123C`, `456D`, `789E` and `A0BF`. -/
def code : Key → Option UInt8
  | num1 => some 0x1 | num2 => some 0x2 | num3 => some 0x3 | num4 => some 0xC
  | q => some 0x4 | w => some 0x5 | e => some 0x6 | r => some 0xD
  | a => some 0x7 | s => some 0x8 | d => some 0x9 | f => some 0xE
  | z => some 0xA | x => some 0x0 | c => some 0xB | v => some 0xF
  | _ => none

def command : Key → Option Command
  | space => some .togglePlay
  | n => some .step
  | backspace => some .replay
  | escape => some .stop
  | equals => some .faster
  | minus => some .slower
  | _ => none

end Key
end ChipEight.Desktop
